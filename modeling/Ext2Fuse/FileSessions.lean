import Ext2Fuse.FileServing

/-!
# Sessions on a file

A file is used in sessions that do not overlap: it is truncated by name, or it is opened without
`O_TRUNC`, read and written through the handle, and closed. As long as no library call fails, the
file is a sequence of bytes: what the sessions answer and leave is what the same operations on the
sequence do.
-/

namespace Ext2Fuse

open Lib Program Fs Volume Contents

/-- What a user of the file does. -/
inductive FileEvent where
  | truncate (perms : Perms) (length : Nat)
  | opens (perms : Perms) (flags : OpenFlags)
  | write (off : Nat) (data : List UInt8)
  | read (off size : Nat)
  | close

/-- What comes of it: the return code, how many bytes have been read or written, the bytes that have
been read, and the size of the file afterwards. -/
structure FileAnswer where
  rc : Errcode
  count : Nat
  bytes : List UInt8
  size : Nat
deriving DecidableEq

namespace FileEvent

/-- The file stays below 4 GiB. -/
def Fits : FileEvent → Prop
  | truncate _ length => length < 2 ^ 32
  | write off data => off + data.length < 2 ^ 32
  | _ => True

instance : DecidablePred Fits := fun event =>
  match event with
  | truncate _ length => inferInstanceAs (Decidable (length < 2 ^ 32))
  | write off data => inferInstanceAs (Decidable (off + data.length < 2 ^ 32))
  | opens _ _ | read _ _ | close => isTrue trivial

/-- The same on a sequence of bytes. The count of a read has 32 bits. -/
def replay (contents : List UInt8) : FileEvent → FileAnswer × List UInt8
  | truncate _ length => (⟨0, 0, [], length⟩, resize contents length)
  | write off data =>
      (⟨0, data.length, [], (writeAt contents off data).length⟩, writeAt contents off data)
  | read off size =>
      let got := readAt contents off (size % 2 ^ 32)
      (⟨0, got.length, got, contents.length⟩, contents)
  | _ => (⟨0, 0, [], contents.length⟩, contents)

/-- One event after the other. -/
def replays (contents : List UInt8) (events : List FileEvent) : List FileAnswer × List UInt8 :=
  events.foldl (fun sofar event =>
    let (answer, contents) := event.replay sofar.2
    (sofar.1 ++ [answer], contents)) ([], contents)

/-- Replaying one event more. -/
theorem replays_snoc (contents : List UInt8) (events : List FileEvent) (event : FileEvent) :
    replays contents (events ++ [event]) =
      ((replays contents events).1 ++ [(event.replay (replays contents events).2).1],
        (event.replay (replays contents events).2).2) := by
  rw [replays, List.foldl_append]
  rfl

end FileEvent

variable {δ : Type}

/-- An event on the file `ino` and the calls it makes, all of which succeed. Besides the filesystem
there is the handle of the session, if one is going on. -/
inductive SessionStep (env : Env δ) (ino : Nat) :
    Fs δ × Option File → FileEvent → FileAnswer → Fs δ × Option File → Prop where
  | truncate {fs fs' : Fs δ} {perms : Perms} {length rc : Nat}
      (succeeds : Meets (lib env) (SucceedingCall env) (doTruncate perms ino length) fs)
      (ran : (doTruncate perms ino length).run (lib env) fs = (rc, fs')) :
      SessionStep env ino (fs, none) (.truncate perms length)
        ⟨rc, 0, [], (fs'.inodeTab ino).ext2ISize⟩ (fs', none)
  | opens {fs fs' : Fs δ} {perms : Perms} {flags : OpenFlags} {fh : File}
      (kept : flags.trunc = false)
      (succeeds : Meets (lib env) (SucceedingCall env) (doOpen perms ino flags) fs)
      (ran : (doOpen perms ino flags).run (lib env) fs = (.ok fh, fs')) :
      SessionStep env ino (fs, none) (.opens perms flags) ⟨0, 0, [], (fs'.inodeTab ino).ext2ISize⟩
        (fs', some fh)
  | write {fs fs' : Fs δ} {fh fh' : File} {off rc count : Nat} {data : List UInt8}
      (succeeds : Meets (lib env) (SucceedingCall env) (doWrite fh ino data off) fs)
      (ran : (doWrite fh ino data off).run (lib env) fs = ((rc, count, fh'), fs')) :
      SessionStep env ino (fs, some fh) (.write off data)
        ⟨rc, count, [], (fs'.inodeTab ino).ext2ISize⟩ (fs', some fh')
  | read {fs fs' : Fs δ} {fh fh' : File} {off size rc : Nat} {bytes : List UInt8}
      (succeeds : Meets (lib env) (SucceedingCall env) (doRead fh ino size off) fs)
      (ran : (doRead fh ino size off).run (lib env) fs = ((rc, bytes, fh'), fs')) :
      SessionStep env ino (fs, some fh) (.read off size)
        ⟨rc, bytes.length, bytes, (fs'.inodeTab ino).ext2ISize⟩ (fs', some fh')
  | close {fs fs' : Fs δ} {fh : File} {rc : Nat}
      (succeeds : Meets (lib env) (SucceedingCall env) (doFileClose fh) fs)
      (ran : (doFileClose fh).run (lib env) fs = (rc, fs')) :
      SessionStep env ino (fs, some fh) .close ⟨rc, 0, [], (fs'.inodeTab ino).ext2ISize⟩ (fs', none)

/-- Any number of events, and the record of them. -/
inductive SessionSteps (env : Env δ) (ino : Nat) (initial : Fs δ × Option File) :
    List (FileEvent × FileAnswer) → Fs δ × Option File → Prop where
  | refl : SessionSteps env ino initial [] initial
  | step {record : List (FileEvent × FileAnswer)} {current next : Fs δ × Option File}
      {event : FileEvent} {answer : FileAnswer}
      (prior : SessionSteps env ino initial record current)
      (transition : SessionStep env ino current event answer next) :
      SessionSteps env ino initial (record ++ [(event, answer)]) next

/-- The file has these contents: the handle sees them, or they are on disk. -/
def Contains (ino : Nat) (bytes : List UInt8) : Fs δ × Option File → Prop
  | (fs, some fh) => fs.Serving ino fh bytes
  | (fs, none) => fs.Stores ino ∧ fs.contents ino = bytes

section Sessions

variable {env : Env δ} {ino : Nat} {bytes : List UInt8} {state state' : Fs δ × Option File}

theorem Fs.Serving.ext2ISize {fs : Fs δ} {fh : File} (serving : fs.Serving ino fh bytes) :
    (fs.inodeTab ino).ext2ISize = bytes.length := by
  rw [serving.inStep.ext2ISize, Inode.ext2ISize, serving.size, serving.high]
  omega

/-- The size on disk is the length of the contents also while the file is open. -/
theorem Contains.size (contains : Contains ino bytes state) :
    (state.1.inodeTab ino).ext2ISize = bytes.length := by
  obtain ⟨fs, _ | fh⟩ := state
  · obtain ⟨-, rfl⟩ := contains
    exact (length_contents fs ino).symm
  · exact Serving.ext2ISize contains

/-- An event does what it does to the sequence of bytes. -/
theorem Contains.step (contains : Contains ino bytes state) {event : FileEvent}
    {answer : FileAnswer}
    (fits : event.Fits) (transition : SessionStep env ino state event answer state') :
    answer = (event.replay bytes).1 ∧ Contains ino (event.replay bytes).2 state' ∧
      Aside ino state.1 state'.1 := by
  cases transition with
  | truncate succeeds ran =>
      obtain ⟨stores, rfl⟩ := contains
      obtain ⟨rfl, kept, stored, aside⟩ := (doTruncate_stores stores _ fits succeeds).outcome ran
      refine ⟨?_, ⟨kept, stored⟩, aside⟩
      rw [← length_contents, stored, length_resize]
      rfl
  | @opens _ _ _ flags _ kept succeeds ran =>
      obtain ⟨stores, rfl⟩ := contains
      rw [run_doOpen stores.isFile.valid _ kept] at ran
      cases ran
      have serving := stores.serving (flags.rdwr || flags.wronly)
      refine ⟨?_, serving, .refl stores.apart ino⟩
      rw [serving.ext2ISize]
      rfl
  | write succeeds ran =>
      obtain ⟨rfl, rfl, served, aside⟩ := (doWrite_serving contains fits succeeds).outcome ran
      refine ⟨?_, served, aside⟩
      rw [served.ext2ISize]
      rfl
  | read succeeds ran =>
      obtain ⟨rfl, rfl, served, aside⟩ := (doRead_serving contains _ _ succeeds).outcome ran
      refine ⟨?_, served, aside⟩
      rw [served.ext2ISize]
      rfl
  | close succeeds ran =>
      obtain ⟨rfl, kept, stored, aside⟩ := (doFileClose_serving contains succeeds).outcome ran
      refine ⟨?_, ⟨kept, stored⟩, aside⟩
      rw [← length_contents, stored]
      rfl

/-- Where files are contained they share no block. -/
theorem Contains.apart (contains : Contains ino bytes state) : state.1.FilesApart := by
  obtain ⟨fs, _ | fh⟩ := state
  · exact contains.1.apart
  · exact Attended.apart contains.toAttended

/-- So do any number of events. -/
theorem Contains.steps (contains : Contains ino bytes state)
    {record : List (FileEvent × FileAnswer)}
    (fits : ∀ entry ∈ record, entry.1.Fits) (run : SessionSteps env ino state record state') :
    record.map Prod.snd = (FileEvent.replays bytes (record.map Prod.fst)).1 ∧
      Contains ino (FileEvent.replays bytes (record.map Prod.fst)).2 state' ∧
        Aside ino state.1 state'.1 := by
  induction run with
  | refl => exact ⟨rfl, contains, .refl contains.apart ino⟩
  | step prior transition inductionHypothesis =>
      obtain ⟨answers, contains', aside⟩ := inductionHypothesis fun entry member =>
        fits entry (List.mem_append_left _ member)
      obtain ⟨answer, after, asideToo⟩ := contains'.step
        (fits _ (List.mem_append_right _ (List.mem_singleton_self _))) transition
      simp only [List.map_append, List.map_cons, List.map_nil, FileEvent.replays_snoc]
      exact ⟨by rw [answers, answer], after, aside.trans asideToo⟩

/-- **A file is a sequence of bytes.** Over any number of sessions, each a `do_truncate` or an open
without `O_TRUNC` with any writes and reads and a close, in which no library call fails and the file
stays below 4 GiB, the return codes, the counts, the bytes that are read and the size after each
step are those of the sequence the file started with; a write beyond the end fills the gap with
zeros, a cut drops the tail, and what is appended is zeros. When no session is going on, the
sequence is what is on disk. The other inodes, the bitmap and the directories are as they were, and
so is every byte of every other file. -/
theorem sessions_refine {fs fs' : Fs δ} {handle : Option File}
    {record : List (FileEvent × FileAnswer)}
    (stores : fs.Stores ino) (fits : ∀ entry ∈ record, entry.1.Fits)
    (run : SessionSteps env ino (fs, none) record (fs', handle)) :
    record.map Prod.snd = (FileEvent.replays (fs.contents ino) (record.map Prod.fst)).1 ∧
      (handle = none →
        fs'.contents ino = (FileEvent.replays (fs.contents ino) (record.map Prod.fst)).2) ∧
      Confined ino fs fs' ∧ ∀ other, other ≠ ino → fs.ownsBlocks other = true →
        ∀ offset, fs.Addressable offset →
          fs'.byteAt (fs'.inodeTab other).iBlock offset = fs.byteAt
            (fs.inodeTab other).iBlock offset := by
  have start : Contains ino (fs.contents ino) (fs, none) := ⟨stores, rfl⟩
  obtain ⟨answers, contains, aside⟩ := start.steps fits run
  refine ⟨answers, ?_, aside.confined,
    fun other apart owns offset small => aside.others apart owns small⟩
  rintro rfl
  exact contains.2

end Sessions

/-- The one block that is owned on the volume with the two files is that of the root directory. -/
theorem twoFiles_pointers (ino slot : Nat) :
    twoFiles.pointers ino slot = if ino = 2 ∧ slot = 0 then 19 else 0 := by
  rw [pointers]
  by_cases root : ino = 2
  · subst root
    rw [if_pos (by decide)]
    by_cases first : slot = 0
    · subst first
      rfl
    · rw [if_neg fun both => first both.2]
      change Function.update (fun _ => 0) 0 19 slot = 0
      rw [Function.update_of_ne first]
  · rw [if_neg (show ¬ (ino = 2 ∧ slot = 0) from fun both => root both.1)]
    have unmapped : (twoFiles.inodeTab ino).iBlock slot = 0 := by
      simp only [twoFiles, if_neg root]
      split <;> rfl
    split
    · exact unmapped
    · rfl

theorem twoFiles_apart : twoFiles.FilesApart := by
  refine forest_of_direct ⟨by decide, by decide, by decide⟩ (fun ino slot beyond => ?_)
    (fun ino slot present => ?_) (fun ino slot ino' slot' present same => ?_)
  all_goals
    simp only [twoFiles_pointers, EXT2_NDIR_BLOCKS] at *
  · rw [if_neg (by omega)]
  · split at present
    · rename_i first
      rw [if_pos first]
      exact ⟨by decide, by decide⟩
    · exact absurd rfl present
  · split at present
    · rename_i first
      rw [if_pos first] at same
      split at same
      · omega
      · omega
    · exact absurd rfl present

theorem twoFiles_stores : twoFiles.Stores 11 where
  isFile :=
    { valid := by decide
      inUse := by decide
      regular := by decide
      numbered := fun block _ present => by
        refine absurd ?_ present
        rw [Volume.mapped]
        exact follow_zero _ }
  apart := twoFiles_apart
  word := by decide
  high := rfl

/-- The two files, where 11 has got two bytes. -/
def twoBytes : Fs (List Dirent) := ((doTruncate none 11 2).run (lib listEnv) twoFiles).2

/-- Two more are written at 3 and 4, and all are read. -/
def twoMore : (Errcode × Nat × File) × Fs (List Dirent) :=
  (doWrite (freshHandle twoBytes 11) 11 [0x68, 0x69] 3).run (lib listEnv) twoBytes

def allRead : (Errcode × List UInt8 × File) × Fs (List Dirent) :=
  (doRead twoMore.1.2.2 11 16 0).run (lib listEnv) twoMore.2

/-- One session of five requests on the example's file. -/
theorem sessions_refine_two : ∃ (record : List (FileEvent × FileAnswer)) (fs' : Fs (List Dirent)),
    SessionSteps listEnv 11 (twoFiles, none) record (fs', none) ∧
      record.map Prod.fst =
        [.truncate none 2, .opens none { rdwr := true }, .write 3 [0x68, 0x69], .read 0 16,
        .close] ∧
      record.map Prod.snd =
        [⟨0, 0, [], 2⟩, ⟨0, 0, [], 2⟩, ⟨0, 2, [], 5⟩, ⟨0, 5, [0, 0, 0, 0x68, 0x69], 5⟩,
        ⟨0, 0, [], 5⟩] ∧
      fs'.contents 11 = [0, 0, 0, 0x68, 0x69] := by
  have cuts : Meets (lib listEnv) (SucceedingCall listEnv) (doTruncate none 11 2) twoFiles :=
    ⟨rfl, rfl, trivial, rfl, rfl, trivial⟩
  have opens : Meets (lib listEnv) (SucceedingCall listEnv)
    (doOpen none 11 { rdwr := true }) twoBytes :=
    ⟨rfl, trivial⟩
  have writes : Meets (lib listEnv) (SucceedingCall listEnv)
      (doWrite (freshHandle twoBytes 11) 11 [0x68, 0x69] 3) twoBytes :=
    ⟨rfl, trivial, rfl, rfl, trivial, rfl, trivial⟩
  have reads : Meets (lib listEnv) (SucceedingCall listEnv)
    (doRead twoMore.1.2.2 11 16 0) twoMore.2 :=
    ⟨rfl, trivial, rfl, trivial⟩
  have closes : Meets (lib listEnv) (SucceedingCall listEnv)
    (doFileClose allRead.1.2.2) allRead.2 :=
    ⟨rfl, trivial⟩
  have start : SessionSteps listEnv 11 (twoFiles, none) [] (twoFiles, none) := .refl
  have run := ((((start.step (.truncate cuts (show _ = (0, twoBytes) from rfl))).step
    (.opens rfl opens (run_doOpen (by decide) none rfl))).step
    (.write writes (show _ = ((0, 2, twoMore.1.2.2), twoMore.2) from rfl))).step
    (.read reads (show _ = ((allRead.1.1, allRead.1.2.1, allRead.1.2.2), allRead.2) from rfl))).step
    (.close closes (show _ = (0, _) from rfl))
  obtain ⟨answers, final, -⟩ := sessions_refine twoFiles_stores (by
    intro entry member
    simp only [List.nil_append, List.mem_append, List.mem_singleton] at member
    rcases member with (((rfl | rfl) | rfl) | rfl) | rfl
    all_goals exact (show FileEvent.Fits _ from by decide)) run
  exact ⟨_, _, run, rfl, answers, final rfl⟩

end Ext2Fuse
