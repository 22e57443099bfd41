import Ext2Fuse.Readdir
import Ext2Fuse.NsRuns
import Ext2Fuse.RenameSame
import Ext2Fuse.RenameMoves
import Ext2Fuse.EntryRuns
import Ext2Fuse.FileSizes
import Ext2Fuse.Symlinks
import Ext2Fuse.MkdirTakes
import Ext2Fuse.Statfs
import Ext2Fuse.RenameFails
import Ext2Fuse.MkdirParent
import Ext2Fuse.SetAttributes
import Ext2Fuse.NewObjects
import Ext2Fuse.RmdirEmpty
import Ext2Fuse.MovedDots
import Ext2Fuse.DirExpand
import Ext2Fuse.OpenHandles
import Ext2Fuse.ShortenedFiles
import Ext2Fuse.KilledBlocks
import Ext2Fuse.LongNames
import Ext2Fuse.FileIsolation
import Ext2Fuse.ChannelRecency
import Ext2Fuse.InodeRuns
import Ext2Fuse.VolumeChannel
import Ext2Fuse.SecureDeletion
