import Mathlib.Data.List.Infix
import Mathlib.Algebra.BigOperators.Group.List.Basic
import Mathlib.Algebra.Ring.Nat
import Mathlib.Data.Nat.Find

/-!
# Paging through a stream of records

A server lays out a list of items as one stream of variable-size records, each
carrying the offset of the end of its record. A client fetches the stream in pages: it
asks for at most so many units from an offset, decodes the complete records of the
page, and resumes at the offset in the last of them. A `Session` is such a sequence of
requests; the server may lay out other items at each of them. `Session.Coherent` is
what makes the client come out with the server's items.
-/

namespace Ext2Fuse.Lib.Paging

/-- How items are written as records, and how complete records are read back from
the beginning of a page. -/
structure Codec (ι β : Type) where
  size : ι → Nat
  encode : ι → Nat → List β
  parse : List β → List (ι × Nat)

/-- A record has the announced positive size and, for offsets up to `limit`, is read
back with its offset; a record that is cut short is ignored. -/
structure Codec.Lawful {ι β : Type} (codec : Codec ι β) (limit : Nat) (items : List ι) : Prop where
  size_pos : ∀ item ∈ items, 0 < codec.size item
  length_encode : ∀ item ∈ items, ∀ offset,
    (codec.encode item offset).length = codec.size item
  parse_encode : ∀ item ∈ items, ∀ offset ≤ limit, ∀ rest,
    codec.parse (codec.encode item offset ++ rest) = (item, offset) :: codec.parse rest
  parse_partial : ∀ item ∈ items, ∀ offset ≤ limit, ∀ count < codec.size item,
    codec.parse ((codec.encode item offset).take count) = []
  parse_nil : codec.parse [] = []

section

variable {ι β : Type} (codec : Codec ι β) {limit : Nat}

/-- The units taken by the records of `items`. -/
def total (items : List ι) : Nat := (items.map codec.size).sum

/-- The stream of `items` when `start` units precede it. -/
def stream (start : Nat) : List ι → List β
  | [] => []
  | item :: items =>
      codec.encode item (start + codec.size item) ++ stream (start + codec.size item) items

/-- Each item with the offset its record carries. -/
def tagged (start : Nat) : List ι → List (ι × Nat)
  | [] => []
  | item :: items => (item, start + codec.size item) :: tagged (start + codec.size item) items

/-- How many records of `items` are complete within `count` units. -/
def fitting (count : Nat) : List ι → Nat
  | [] => 0
  | item :: items =>
      if codec.size item ≤ count then fitting (count - codec.size item) items + 1 else 0

/-- The page of at most `count` units from `offset` on. -/
def page (units : List β) (offset count : Nat) : List β := (units.drop offset).take count

/-- A change of the laid out items that leaves the records ending up to `offset` where
they are. -/
def KeepsBefore (offset : Nat) (items changed : List ι) : Prop :=
  changed.take (fitting codec offset items) = items.take (fitting codec offset items)

/-- Where a client resumes that was at `offset` and received `records`. -/
def resume (offset : Nat) (records : List (ι × Nat)) : Nat :=
  (records.getLast?.map Prod.snd).getD offset

variable {codec}

@[simp] theorem total_nil : total codec ([] : List ι) = 0 := rfl

@[simp] theorem total_cons (item : ι) (items : List ι) :
    total codec (item :: items) = codec.size item + total codec items := by
  simp [total]

@[simp] theorem total_append (first second : List ι) :
    total codec (first ++ second) = total codec first + total codec second := by
  simp [total]

@[simp] theorem map_fst_tagged (start : Nat) (items : List ι) :
    (tagged codec start items).map Prod.fst = items := by
  induction items generalizing start with
  | nil => rfl
  | cons item items inductionHypothesis => simp [tagged, inductionHypothesis]

/-- After a run of tagged items the resume offset is the end of the last one. -/
theorem resume_tagged (start : Nat) (items : List ι) :
    resume start (tagged codec start items) = start + total codec items := by
  induction items generalizing start with
  | nil => simp [tagged, resume]
  | cons item items inductionHypothesis =>
      have later := inductionHypothesis (start + codec.size item)
      cases items with
      | nil => simp [tagged, resume]
      | cons second rest =>
          simp only [tagged, resume, List.getLast?_cons_cons, total_cons] at later ⊢
          rw [List.getLast?_cons] at later ⊢
          simp only [Option.map_some, Option.getD_some] at later ⊢
          omega

/-- A codec that is lawful for a list is lawful for its tail. -/
theorem Codec.Lawful.tail {item : ι} {items : List ι}
    (lawful : codec.Lawful limit (item :: items)) :
    codec.Lawful limit items where
  size_pos other member := lawful.size_pos other (List.mem_cons_of_mem _ member)
  length_encode other member := lawful.length_encode other (List.mem_cons_of_mem _ member)
  parse_encode other member := lawful.parse_encode other (List.mem_cons_of_mem _ member)
  parse_partial other member := lawful.parse_partial other (List.mem_cons_of_mem _ member)
  parse_nil := lawful.parse_nil

/-- A codec that is lawful for a list is lawful for each of its suffixes. -/
theorem Codec.Lawful.suffix {first second : List ι}
    (lawful : codec.Lawful limit (first ++ second)) :
    codec.Lawful limit second := by
  induction first with
  | nil => exact lawful
  | cons item items inductionHypothesis => exact inductionHypothesis lawful.tail

/-- The stream of a list is as long as its items are together. -/
theorem length_stream {items : List ι} (lawful : codec.Lawful limit items) (start : Nat) :
    (stream codec start items).length = total codec items := by
  induction items generalizing start with
  | nil => rfl
  | cons item items inductionHypothesis =>
      simp [stream, inductionHypothesis lawful.tail,
        lawful.length_encode item (List.mem_cons_self ..)]

/-- Dropping the records of the first items leaves the stream of the others. -/
theorem drop_stream {first second : List ι} (lawful : codec.Lawful limit (first ++ second))
    (start : Nat) :
    (stream codec start (first ++ second)).drop (total codec first) =
      stream codec (start + total codec first) second := by
  induction first generalizing start with
  | nil => simp
  | cons item items inductionHypothesis =>
      have size := lawful.length_encode item (List.mem_cons_self ..) (start + codec.size item)
      have head : ((codec.encode item (start + codec.size item)) ++
          stream codec (start + codec.size item) (items ++ second)).drop (codec.size item) =
          stream codec (start + codec.size item) (items ++ second) := by
        rw [List.drop_append_of_le_length (by omega), List.drop_of_length_le (by omega),
          List.nil_append]
      rw [List.cons_append, stream, total_cons, ← List.drop_drop, head,
        inductionHypothesis lawful.tail, Nat.add_assoc]

/-- A page holds exactly the records that fit into it. -/
theorem parse_take_stream {items : List ι} (lawful : codec.Lawful limit items) {start : Nat}
    (bounded : start + total codec items ≤ limit) (count : Nat) :
    codec.parse ((stream codec start items).take count) =
      tagged codec start (items.take (fitting codec count items)) := by
  induction items generalizing start count with
  | nil => simp [stream, tagged, lawful.parse_nil]
  | cons item items inductionHypothesis =>
      have size := lawful.length_encode item (List.mem_cons_self ..) (start + codec.size item)
      rw [total_cons] at bounded
      simp only [stream, fitting]
      split
      · rename_i fits
        rw [List.take_append, List.take_of_length_le (by omega), size,
          lawful.parse_encode item (List.mem_cons_self ..) _ (by omega),
          inductionHypothesis lawful.tail (by omega)]
        rfl
      · rename_i cut
        rw [List.take_append_of_le_length (by omega),
          lawful.parse_partial item (List.mem_cons_self ..) _ (by omega) _ (by omega)]
        rfl

/-- A reply that has room for every single item holds at least one. -/
theorem fitting_pos {items : List ι} {count : Nat} (nonempty : items ≠ [])
    (large : ∀ item ∈ items, codec.size item ≤ count) : 0 < fitting codec count items := by
  cases items with
  | nil => exact absurd rfl nonempty
  | cons item items => simp [fitting, large item (List.mem_cons_self ..)]

/-- The records complete within the units of the first items are those of the first
items, as no record is empty. -/
theorem fitting_total {first second : List ι} (sizePos : ∀ item, 0 < codec.size item) :
    fitting codec (total codec first) (first ++ second) = first.length := by
  induction first with
  | nil =>
      cases second with
      | nil => rfl
      | cons item items => simp [fitting, Nat.ne_of_gt (sizePos item)]
  | cons item items inductionHypothesis =>
      simp [fitting, inductionHypothesis]

/-- What has been received up to an offset is still first after a change behind it. -/
theorem KeepsBefore.isPrefix {first items changed : List ι}
    (sizePos : ∀ item, 0 < codec.size item)
    (keeps : KeepsBefore codec (total codec first) items changed)
    (received : first <+: items) : first <+: changed := by
  obtain ⟨second, rfl⟩ := received
  rw [KeepsBefore, fitting_total sizePos, List.take_left] at keeps
  rw [← keeps]
  exact List.take_prefix _ _

/-- The page past the last record is empty, and so is no other for a count that has
room for a record. -/
theorem page_eq_nil_iff {first second : List ι} (lawful : codec.Lawful limit (first ++ second))
    {count : Nat} (large : ∀ item ∈ second, codec.size item ≤ count) :
    page (stream codec 0 (first ++ second)) (total codec first) count = [] ↔ second = [] := by
  rw [page, drop_stream lawful, List.take_eq_nil_iff]
  cases second with
  | nil => simp [stream]
  | cons item items =>
      have pos := lawful.suffix.size_pos item (List.mem_cons_self ..)
      have enough := large item (List.mem_cons_self ..)
      have length := length_stream lawful.suffix (0 + total codec first)
      simp only [reduceCtorEq, iff_false, not_or]
      refine ⟨by omega, fun empty => ?_⟩
      rw [empty] at length
      simp at length
      omega

end

/-- A sequence of requests: the reply each of them gets if it asks from an offset on,
and how the client reads a reply. -/
structure Session (ι β : Type) where
  parse : List β → List (ι × Nat)
  replyAt : Nat → Nat → List β

namespace Session

variable {ι β : Type} (session : Session ι β)

/-- The offset of each request: the first is at 0, each next one where the records of
the reply before it end. -/
def offset : Nat → Nat
  | 0 => 0
  | index + 1 => resume (offset index) (session.parse (session.replyAt index (offset index)))

/-- The reply to each request. -/
def reply (index : Nat) : List β := session.replyAt index (session.offset index)

/-- The complete records of the first `count` replies. -/
def records (count : Nat) : List (ι × Nat) :=
  (List.range count).flatMap fun index => session.parse (session.reply index)

/-- The items of those records. -/
def received (count : Nat) : List ι := (session.records count).map Prod.fst

/-- The replies are pages of at most `sizes` units of the streams of `items`, whose
offsets stay within `limit`. -/
structure Serves (session : Session ι β) (codec : Codec ι β) (limit : Nat)
    (items : Nat → List ι) (sizes : Nat → Nat) : Prop where
  parse_eq : session.parse = codec.parse
  replyAt_eq : ∀ index offset,
    session.replyAt index offset = page (stream codec 0 (items index)) offset (sizes index)
  lawful : ∀ index, codec.Lawful limit (items index)
  bounded : ∀ index, total codec (items index) ≤ limit

/-- Every request finds the items already received where they were. -/
def Coherent (session : Session ι β) (items : Nat → List ι) : Prop :=
  ∀ index, session.received index <+: items index

variable {session} {codec : Codec ι β} {limit : Nat} {items : Nat → List ι} {sizes : Nat → Nat}

/-- One more reply adds what is parsed of it to the records. -/
theorem records_succ (count : Nat) :
    session.records (count + 1) = session.records count ++ session.parse (session.reply count) := by
  simp [records, List.range_succ]

/-- One more reply adds the items parsed of it to those received. -/
theorem received_succ (count : Nat) :
    session.received (count + 1) =
      session.received count ++ (session.parse (session.reply count)).map Prod.fst := by
  simp [received, records_succ]

/-- One request at the end of some of the items fetches the next ones that fit. -/
theorem Serves.parse_replyAt (serves : session.Serves codec limit items sizes)
    {first rest : List ι} {index : Nat} (split : items index = first ++ rest) :
    session.parse (session.replyAt index (total codec first)) =
      tagged codec (total codec first) (rest.take (fitting codec (sizes index) rest)) := by
  have lawful := serves.lawful index
  have bounded := serves.bounded index
  rw [split] at lawful bounded
  rw [total_append] at bounded
  rw [serves.parse_eq, serves.replyAt_eq, page, split, drop_stream lawful, Nat.zero_add,
    parse_take_stream lawful.suffix bounded]

/-- A request made at the end of what has been received, when this is still where it
was, gets the next items and moves to their end. -/
theorem Serves.step (serves : session.Serves codec limit items sizes) {index : Nat}
    (atEnd : session.offset index = total codec (session.received index)) {rest : List ι}
    (split : items index = session.received index ++ rest) :
    session.received (index + 1) =
        session.received index ++ rest.take (fitting codec (sizes index) rest) ∧
      session.offset (index + 1) = total codec (session.received (index + 1)) := by
  have parsed := serves.parse_replyAt split
  rw [← atEnd] at parsed
  have next : session.received (index + 1) =
      session.received index ++ rest.take (fitting codec (sizes index) rest) := by
    rw [received_succ, reply, parsed, map_fst_tagged]
  refine ⟨next, ?_⟩
  rw [offset, parsed, resume_tagged, atEnd, next, total_append]

/-- Every request of a coherent session is made at the end of the records received so
far: at a record boundary. -/
theorem Serves.offset_eq (serves : session.Serves codec limit items sizes)
    (coherent : session.Coherent items) (count : Nat) :
    session.offset count = total codec (session.received count) := by
  induction count with
  | zero => rfl
  | succ count inductionHypothesis =>
      obtain ⟨rest, split⟩ := coherent count
      exact (serves.step inductionHypothesis split.symm).2

/-- The empty reply of a coherent session comes when everything laid out has been
received. -/
theorem Serves.reply_eq_nil_iff (serves : session.Serves codec limit items sizes)
    (coherent : session.Coherent items) {index : Nat}
    (large : ∀ item ∈ items index, codec.size item ≤ sizes index) :
    session.reply index = [] ↔ session.received index = items index := by
  obtain ⟨rest, split⟩ := coherent index
  have lawful := serves.lawful index
  rw [← split] at lawful large
  rw [reply, serves.replyAt_eq, serves.offset_eq coherent, ← split,
    page_eq_nil_iff lawful fun item member => large item (List.mem_append_right _ member)]
  simp

/-- As long as there is something left, a coherent session gets ahead. -/
theorem Serves.received_lt (serves : session.Serves codec limit items sizes)
    (coherent : session.Coherent items) {index : Nat}
    (large : ∀ item ∈ items index, codec.size item ≤ sizes index)
    (pending : session.received index ≠ items index) :
    (session.received index).length < (session.received (index + 1)).length := by
  obtain ⟨rest, split⟩ := coherent index
  have nonempty : rest ≠ [] := by
    rintro rfl
    exact pending (by simpa using split)
  have room : 0 < fitting codec (sizes index) rest :=
    fitting_pos nonempty fun item member => large item (split ▸ List.mem_append_right _ member)
  rw [(serves.step (serves.offset_eq coherent index) split.symm).1, List.length_append,
    List.length_take]
  have : 0 < rest.length := List.length_pos_iff.mpr nonempty
  omega

/-- A session is coherent when, from each request to the next, whatever has been
received by a request stays first. -/
theorem Serves.coherent_of_keeps (serves : session.Serves codec limit items sizes)
    (keeps : ∀ index first, session.offset (index + 1) = total codec first →
      first <+: items index → first <+: items (index + 1)) : session.Coherent items := by
  have both : ∀ count, session.offset count = total codec (session.received count) ∧
      session.received count <+: items count := by
    intro count
    induction count with
    | zero => exact ⟨rfl, List.nil_prefix⟩
    | succ count inductionHypothesis =>
        obtain ⟨offsetEq, rest, split⟩ := inductionHypothesis
        have step := serves.step offsetEq split.symm
        refine ⟨step.2, keeps count _ step.2 ?_⟩
        rw [step.1, ← split]
        exact (List.prefix_append_right_inj _).mpr (List.take_prefix _ _)
  exact fun index => (both index).2

variable {fixed : List ι}

/-- A session whose server always lays out the same items is coherent. -/
theorem Serves.coherent_of_constant (serves : session.Serves codec limit items sizes)
    (constant : ∀ index, items index = fixed) : session.Coherent items :=
  serves.coherent_of_keeps fun index _ _ received => by rwa [constant] at received ⊢

/-- Against a server that always lays out the same items, requests with room for every
record end, with every item received once and in order. -/
theorem Serves.complete_of_constant (serves : session.Serves codec limit items sizes)
    (constant : ∀ index, items index = fixed)
    (large : ∀ index, ∀ item ∈ fixed, codec.size item ≤ sizes index) :
    ∃ count, session.reply count = [] ∧ (∀ index < count, session.reply index ≠ []) ∧
      session.received count = fixed := by
  have coherent := serves.coherent_of_constant constant
  have emptyIff : ∀ index, session.reply index = [] ↔ session.received index = fixed := by
    intro index
    rw [serves.reply_eq_nil_iff coherent (by rw [constant]; exact large index), constant]
  -- each request that is not the last one receives at least one item
  have progress : ∀ count, (∀ index < count, session.received index ≠ fixed) →
      count ≤ (session.received count).length := by
    intro count pending
    induction count with
    | zero => exact Nat.zero_le _
    | succ count inductionHypothesis =>
        have before := inductionHypothesis fun index below => pending index (by omega)
        have unfinished : session.received count ≠ items count := by
          rw [constant]
          exact pending count (by omega)
        have ahead := serves.received_lt coherent (by rw [constant]; exact large count) unfinished
        omega
  have ends : ∃ index, session.received index = fixed := by
    by_contra never
    have pending : ∀ index, session.received index ≠ fixed :=
      fun index equal => never ⟨index, equal⟩
    have long := progress (fixed.length + 1) fun index _ => pending index
    have short := (coherent (fixed.length + 1)).length_le
    rw [constant] at short
    omega
  classical
  refine ⟨Nat.find ends, (emptyIff _).mpr (Nat.find_spec ends), fun index below => ?_,
    Nat.find_spec ends⟩
  exact fun empty => Nat.find_min ends below ((emptyIff index).mp empty)

end Session

end Ext2Fuse.Lib.Paging
