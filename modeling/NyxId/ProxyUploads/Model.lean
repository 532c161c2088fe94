import Mathlib.Algebra.Group.Nat.Defs
import Mathlib.Data.List.Basic
import Mathlib.Tactic.Common

/-!
Request bodies that are streamed to a node. Frames are checked against their upload under a lock
and then sent on a bounded channel, whose last item of a whole body is an empty chunk. Frame calls
come one after another; the consumers, disconnects and cleanups act between any two of their steps.
-/

namespace NyxId.ProxyUploads

abbrev Uuid := BitVec 128

inductive Kind where
  | desktop
  | input
  | gatewayUpload
  | gatewayDownload
  | file
  | gatewayUploadAbort
  | gatewayDownloadAbort
  | proxyUpload
  | proxyUploadAbort
  | gatewayCancel
  | desktopActivity
  deriving DecidableEq

/-- A frame; `final` is its end flag. -/
structure Frame where
  kind : Kind
  final : Bool
  id : Uuid
  sequence : UInt64
  bytes : List UInt8
  deriving DecidableEq

/-- What is sent on a channel: a chunk, empty at the end of the body, or an error. -/
abbrev Item := Except String (List UInt8)

inductive Outcome where
  | ended
  | failed (error : String)
  deriving DecidableEq

/-- A call with a frame of an upload: whether the map had lost the upload's stream before it other
than through a frame, and whether no send of it was late. -/
structure Call where
  frame : Frame
  cut : Bool
  inTime : Bool
  deriving DecidableEq

/-- An opened upload. The map of streams holds it while there is a sequence number. The channel is
open until the consumer has an outcome. The last three fields are its history. -/
structure Upload where
  id : Uuid
  limit : ℕ
  sequence : Option UInt64
  queue : List Item
  total : ℕ
  yielded : List (List UInt8)
  outcome : Option Outcome
  accepted : List (List UInt8)
  calls : List Call
  cut : Bool

/-- What a frame call does next with the sender that it cloned. -/
inductive Phase where
  | interrupt
  | data
  | mark
  | drop
  deriving DecidableEq

structure Flight where
  frame : Frame
  channel : ℕ
  phase : Phase

/-- All uploads in the order of their opening, the frame call under way, and the ids for which the
removal after a consumer's end is still to run. -/
structure State where
  uploads : List Upload
  flight : Option Flight
  cleanups : List Uuid

def capacity : ℕ := 16

def maxStreams : ℕ := 32

def maxBytes : ℕ := 16 * 1024 * 1024 * 1024

def saturatingAdd (a b : ℕ) : ℕ := min (a + b) (2 ^ 64 - 1)

namespace Upload

variable (u : Upload) (f : Frame)

def opened (id : Uuid) (limit : ℕ) : Upload := ⟨id, limit, some 0, [], 0, [], none, [], [], false⟩

def held (id : Uuid) : Bool := u.sequence.isSome && u.id = id

/-- The check of a frame under the lock. -/
def accepts : Bool := f.kind = .proxyUpload && u.sequence = some f.sequence

def log (call : Call) : Upload := { u with calls := u.calls ++ [call] }

/-- The entry of the map after a frame was looked up. -/
def taken : Upload :=
  { u with sequence := if f.final || !u.accepts f then none else u.sequence.map (· + 1) }

/-- What is left of the call after the lookup, if anything. -/
def nextPhase : Option Phase :=
  if !u.accepts f then some .interrupt
  else if !f.bytes.isEmpty then some .data
  else if f.final then some .mark
  else none

/-- The lookup of a frame that the map holds. -/
def lookUp : Upload :=
  match u.nextPhase f with
  | some .data | some .mark => u.taken f
  | _ => (u.taken f).log ⟨f, false, true⟩

/-- A frame of the upload comes when the map does not hold it. -/
def ignore : Upload := if u.id = f.id then u.log ⟨f, u.cut, true⟩ else u

/-- The map loses the stream. -/
def cutOff : Upload := if u.sequence.isSome then { u with sequence := none, cut := true } else u

/-- There is room in the channel and it is open. -/
def ready : Bool := u.outcome.isNone && u.queue.length < capacity

def push (item : Item) : Upload := { u with queue := u.queue ++ [item] }

/-- `try_send`: what does not fit is dropped. -/
def tryPush (item : Item) : Upload := if u.ready then u.push item else u

def fail (error : String) : Upload := { u with outcome := some (.failed error) }

/-- The consumer takes an item. -/
def receive : Upload :=
  match u.queue with
  | [] => u
  | .error error :: rest => { u with queue := rest }.fail error
  | .ok [] :: rest => { u with queue := rest, outcome := some .ended }
  | .ok bytes :: rest =>
    let total := saturatingAdd u.total bytes.length
    if total > u.limit then { u with queue := rest, total := total }.fail "upload limit exceeded"
    else { u with queue := rest, total := total, yielded := u.yielded ++ [bytes] }

end Upload

namespace State

variable (s : State)

def empty : State := ⟨[], none, []⟩

def heldCount : ℕ := (s.uploads.filter fun u => u.sequence.isSome).length

def contains (id : Uuid) : Bool := s.uploads.any (·.held id)

/-- The part of `begin` that follows the checks of the request. -/
def opened (id : Uuid) (limit : ℕ) : State := { s with uploads := s.uploads ++ [.opened id limit] }

def disconnect : State := { s with uploads := s.uploads.map Upload.cutOff }

def remove (id : Uuid) : State :=
  { s with uploads := s.uploads.map fun u => if u.held id then u.cutOff else u }

/-- The first part of a frame call, under the lock. -/
def frame (f : Frame) : State :=
  { s with
    uploads := s.uploads.map fun u => if u.held f.id then u.lookUp f else u.ignore f
    flight := (s.uploads.findIdx? (·.held f.id)).bind fun k =>
      (s.uploads[k]?).bind fun u => (u.nextPhase f).map fun phase => ⟨f, k, phase⟩ }

def modify (k : ℕ) (change : Upload → Upload) : State := { s with uploads := s.uploads.modify k change }

def finish : State := { s with flight := none }

def enter (flight : Flight) : State := { s with flight := some flight }

def cleanUp (id : Uuid) : State := { s.remove id with cleanups := s.cleanups.erase id }

/-- A consumer that came to its end drops its guard. -/
def consumed (k : ℕ) (u : Upload) (change : Upload → Upload) : State :=
  { s.modify k change with
    cleanups := if (change u).outcome.isSome then s.cleanups ++ [u.id] else s.cleanups }

end State

/-- What a consumer does. -/
inductive Reads (k : ℕ) (s : State) : State → Prop where
  | receive (u : Upload) (hu : s.uploads[k]? = some u) (hopen : u.outcome = none)
      (hitem : u.queue ≠ []) : Reads k s (s.consumed k u Upload.receive)
  | disconnected (u : Upload) (hu : s.uploads[k]? = some u) (hopen : u.outcome = none)
      (hempty : u.queue = [])
      (hsender : ¬ (u.sequence ≠ none ∨ ∃ flight ∈ s.flight, flight.channel = k)) :
      Reads k s (s.consumed k u (·.fail "upload disconnected"))
  | idle (u : Upload) (hu : s.uploads[k]? = some u) (hopen : u.outcome = none)
      (hempty : u.queue = [])
      (hsender : u.sequence ≠ none ∨ ∃ flight ∈ s.flight, flight.channel = k) : Reads k s (s.consumed k u (·.fail "upload idle timeout"))

/-- One step of any party. A send is late when it times out or finds the channel closed. -/
inductive Step (s : State) : State → Prop where
  | begin (id : Uuid) (limit : ℕ) (hlimit : limit ≤ maxBytes) (hroom : s.heldCount < maxStreams)
      (hfree : ¬ s.contains id) : Step s (s.opened id limit)
  | disconnect : Step s s.disconnect
  | cleanUp (id : Uuid) (hid : id ∈ s.cleanups) : Step s (s.cleanUp id)
  | frame (f : Frame) (hidle : s.flight = none) : Step s (s.frame f)
  | interrupt (f : Frame) (k : ℕ) (hflight : s.flight = some ⟨f, k, .interrupt⟩) :
      Step s (s.modify k (·.tryPush (.error "upload interrupted"))).finish
  | data (f : Frame) (k : ℕ) (u : Upload) (hflight : s.flight = some ⟨f, k, .data⟩)
      (hu : s.uploads[k]? = some u) (hready : u.ready) :
      Step s (if f.final then
          (s.modify k fun u => { u.push (.ok f.bytes) with accepted := u.accepted ++ [f.bytes] }).enter
            ⟨f, k, .mark⟩
        else (s.modify k fun u =>
          { u.push (.ok f.bytes) with accepted := u.accepted ++ [f.bytes] }.log ⟨f, false, true⟩).finish)
  | dataLate (f : Frame) (k : ℕ) (hflight : s.flight = some ⟨f, k, .data⟩) :
      Step s ((s.modify k (·.log ⟨f, false, false⟩)).enter ⟨f, k, .drop⟩)
  | drop (f : Frame) (k : ℕ) (hflight : s.flight = some ⟨f, k, .drop⟩) :
      Step s (s.remove f.id).finish
  | mark (f : Frame) (k : ℕ) (u : Upload) (hflight : s.flight = some ⟨f, k, .mark⟩)
      (hu : s.uploads[k]? = some u) (hready : u.ready) :
      Step s (s.modify k fun u => (u.push (.ok [])).log ⟨f, false, true⟩).finish
  | markLate (f : Frame) (k : ℕ) (hflight : s.flight = some ⟨f, k, .mark⟩) :
      Step s (s.modify k (·.log ⟨f, false, false⟩)).finish
  | reads (k : ℕ) {s' : State} (h : Reads k s s') : Step s s'

inductive Reachable : State → Prop where
  | start : Reachable State.empty
  | next {s s' : State} (h : Reachable s) (hstep : Step s s') : Reachable s'

/-!
The consumer of an upload. What it has yielded and what waits in the channel are what was accepted
and how the channel was closed, so its outcome is decided by what was sent.
-/

def size (chunks : List (List UInt8)) : ℕ := chunks.flatten.length

/-- The item that ends a whole body. -/
def endMark : Item := .ok []

/-- A channel is not closed yet, or it was closed by the end of the body or by an error. -/
def Closing (tail : List Item) : Prop := tail = [] ∨ tail = [endMark] ∨ ∃ error, tail = [.error error]

/-- The consumer of a channel on which the accepted chunks were sent and then a tail. -/
inductive Consumed (u : Upload) (tail : List Item) : Prop where
  | waiting (houtcome : u.outcome = none)
      (hitems : u.yielded.map Except.ok ++ u.queue = u.accepted.map Except.ok ++ tail)
      (hnonempty : ∀ chunk ∈ u.yielded, chunk ≠ []) (htotal : u.total = size u.yielded)
      (hlimit : size u.yielded ≤ u.limit)
  | ended (houtcome : u.outcome = some .ended) (htail : tail = [endMark])
      (hyielded : u.yielded = u.accepted) (hlimit : size u.yielded ≤ u.limit)
  | failed (error : String) (houtcome : u.outcome = some (.failed error))
      (hfront : u.yielded <+: u.accepted) (hlimit : size u.yielded ≤ u.limit)
      (htail : tail = [endMark] → u.limit < size u.accepted)

section

variable {u : Upload} {tail : List Item} {item : Item} {rest : List Item}
variable {yielded accepted : List (List UInt8)}

theorem size_append (chunks more : List (List UInt8)) :
    size (chunks ++ more) = size chunks + size more := by
  simp [size]

/-- The next item is the next chunk that was accepted, or all of them were taken. -/
theorem next_item (htail : tail.length ≤ 1)
    (h : yielded.map Except.ok ++ item :: rest = accepted.map Except.ok ++ tail) :
    (∃ chunk more, accepted = yielded ++ chunk :: more ∧ item = .ok chunk) ∨
      (accepted = yielded ∧ tail = item :: rest) := by
  induction yielded generalizing accepted with
  | nil =>
    cases accepted with
    | nil => exact .inr ⟨rfl, h.symm⟩
    | cons chunk more =>
      rw [List.map_nil, List.nil_append, List.map_cons, List.cons_append] at h
      exact .inl ⟨chunk, more, rfl, (List.cons.inj h).1⟩
  | cons y yielded ih =>
    cases accepted with
    | nil =>
      have hlength := congrArg List.length h
      simp only [List.map_cons, List.cons_append, List.length_cons, List.length_append,
        List.map_nil, List.nil_append] at hlength
      omega
    | cons chunk more =>
      simp only [List.map_cons, List.cons_append, List.cons.injEq, Except.ok.injEq] at h
      obtain ⟨rfl, hrest⟩ := h
      obtain ⟨c, later, heq, hitem⟩ | ⟨heq, htail'⟩ := ih hrest
      · exact .inl ⟨c, later, by rw [heq, List.cons_append], hitem⟩
      · exact .inr ⟨by rw [heq], htail'⟩

theorem Closing.length_le (h : Closing tail) : tail.length ≤ 1 := by
  obtain rfl | rfl | ⟨error, rfl⟩ := h <;> simp

/-- While the channel is open, the consumer waits. -/
theorem Consumed.of_open (h : Consumed u tail) (hopen : u.outcome = none) :
    u.yielded.map Except.ok ++ u.queue = u.accepted.map Except.ok ++ tail ∧
      (∀ chunk ∈ u.yielded, chunk ≠ []) ∧ u.total = size u.yielded ∧ size u.yielded ≤ u.limit := by
  cases h with
  | ended houtcome => rw [hopen] at houtcome; cases houtcome
  | failed error houtcome => rw [hopen] at houtcome; cases houtcome
  | waiting _ hitems hnonempty htotal hlimit => exact ⟨hitems, hnonempty, htotal, hlimit⟩

theorem endMark_not_yielded (h : ∀ chunk ∈ yielded, chunk ≠ []) : endMark ∉ yielded.map Except.ok := by
  intro hmem
  obtain ⟨chunk, hchunk, heq⟩ := List.mem_map.mp hmem
  exact absurd (Except.ok.inj heq) (h chunk hchunk)

/-- What was yielded is the first part of what was accepted. -/
theorem Consumed.prefix (hclosing : Closing tail) (h : Consumed u tail) : u.yielded <+: u.accepted := by
  cases h with
  | waiting houtcome hitems hnonempty htotal hlimit =>
    cases hqueue : u.queue with
    | nil =>
      rw [hqueue, List.append_nil] at hitems
      obtain rfl | rfl | ⟨error, rfl⟩ := hclosing
      · rw [List.append_nil] at hitems
        have heq : u.yielded = u.accepted :=
          List.map_injective_iff.mpr (fun _ _ hok => Except.ok.inj hok) hitems
        exact heq ▸ List.prefix_rfl
      · exact absurd (hitems ▸ List.mem_append_right _ (List.mem_singleton_self _))
          (endMark_not_yielded hnonempty)
      · have hmem : (.error error : Item) ∈ u.yielded.map Except.ok := by
          rw [hitems]
          exact List.mem_append_right _ (List.mem_singleton_self _)
        obtain ⟨chunk, -, heq⟩ := List.mem_map.mp hmem
        cases heq
    | cons item rest =>
      rw [hqueue] at hitems
      obtain ⟨chunk, more, heq, -⟩ | ⟨heq, -⟩ := next_item hclosing.length_le hitems
      · rw [heq]
        exact List.prefix_append _ _
      · exact heq ▸ List.prefix_rfl
  | ended houtcome htail hyielded hlimit => exact hyielded ▸ List.prefix_rfl
  | failed error houtcome hfront hlimit htail => exact hfront

/-- Reading an item keeps what is known of the consumer. -/
theorem Consumed.receive (hclosing : Closing tail) (hchunks : ∀ chunk ∈ u.accepted, chunk ≠ [])
    (hmax : u.limit ≤ maxBytes) (h : Consumed u tail) (hopen : u.outcome = none)
    (hitem : u.queue ≠ []) : Consumed u.receive tail := by
  obtain ⟨hitems, hnonempty, htotal, hlimit⟩ := h.of_open hopen
  obtain ⟨item, rest, hqueue⟩ := List.exists_cons_of_ne_nil hitem
  rw [hqueue] at hitems
  have hnext := next_item hclosing.length_le hitems
  unfold Upload.receive
  rw [hqueue]
  match item, hitems, hnext with
  | .error error, hitems, hnext =>
    obtain ⟨chunk, more, -, hbad⟩ | ⟨heq, htail⟩ := hnext
    · cases hbad
    · refine .failed error rfl (by rw [← heq]; exact List.prefix_rfl) hlimit fun hmark => ?_
      rw [hmark] at htail
      cases htail
  | .ok [], hitems, hnext =>
    obtain ⟨chunk, more, hmore, heq⟩ | ⟨heq, htail⟩ := hnext
    · have hempty : chunk = [] := (Except.ok.inj heq).symm
      exact absurd hempty (hchunks chunk (by rw [hmore]; simp))
    · refine .ended rfl ?_ heq.symm hlimit
      have hlength := hclosing.length_le
      rw [htail, List.length_cons] at hlength
      have hnil : rest = [] := List.eq_nil_of_length_eq_zero (by omega)
      rw [htail, hnil]
      rfl
  | .ok (byte :: bytes), hitems, hnext =>
    obtain ⟨chunk, more, hmore, heq⟩ | ⟨-, htail⟩ := hnext
    · obtain rfl : byte :: bytes = chunk := Except.ok.inj heq
      have hsize : size (u.yielded ++ [byte :: bytes]) = u.total + (byte :: bytes).length := by
        rw [size_append, htotal]
        simp [size]
      have hwhole : size (u.yielded ++ [byte :: bytes]) ≤ size u.accepted := by
        have hsplit : u.accepted = (u.yielded ++ [byte :: bytes]) ++ more := by rw [hmore]; simp
        rw [hsplit, size_append _ more]
        exact Nat.le_add_right _ _
      have hmaxBytes : maxBytes = 17179869184 := rfl
      simp only
      split
      · next hover =>
        unfold saturatingAdd at hover
        refine .failed _ rfl (by rw [Upload.fail, hmore]; exact List.prefix_append _ _) hlimit
          fun _ => ?_
        show u.limit < size u.accepted
        omega
      · next hfits =>
        unfold saturatingAdd at hfits ⊢
        refine .waiting hopen ?_ ?_ ?_ ?_
        · rw [List.map_append, List.append_assoc]
          exact hitems
        · intro chunk hchunk
          obtain hbefore | hnew := List.mem_append.mp hchunk
          · exact hnonempty chunk hbefore
          · rw [List.mem_singleton.mp hnew]
            simp
        · show min (u.total + (byte :: bytes).length) (2 ^ 64 - 1) = size (u.yielded ++ [byte :: bytes])
          omega
        · show size (u.yielded ++ [byte :: bytes]) ≤ u.limit
          omega
    · obtain rfl | rfl | ⟨error, rfl⟩ := hclosing <;> simp [endMark] at htail

/-- A consumer that waits for an item in vain keeps what is known of it. -/
theorem Consumed.fail (hclosing : Closing tail) (h : Consumed u tail) (hopen : u.outcome = none)
    (hempty : u.queue = []) (error : String) : Consumed (u.fail error) tail := by
  have hfront := h.prefix hclosing
  obtain ⟨hitems, hnonempty, htotal, hlimit⟩ := h.of_open hopen
  refine .failed error rfl hfront hlimit fun hmark => ?_
  rw [hempty, List.append_nil, hmark] at hitems
  exact absurd (hitems ▸ List.mem_append_right _ (List.mem_singleton_self _))
    (endMark_not_yielded hnonempty)

/-- What a consumer knows of its upload. -/
def Upload.consumption (u : Upload) : List (List UInt8) × List Item × List (List UInt8) × ℕ × ℕ × Option Outcome :=
  (u.yielded, u.queue, u.accepted, u.total, u.limit, u.outcome)

theorem Consumed.congr {u' : Upload} (h : Consumed u tail) (hsame : u'.consumption = u.consumption) :
    Consumed u' tail := by
  simp only [Upload.consumption, Prod.mk.injEq] at hsame
  obtain ⟨hyielded, hqueue, haccepted, htotal, hlimit, houtcome⟩ := hsame
  cases h with
  | waiting hopen hitems hnonempty hsum hle =>
    exact .waiting (houtcome.trans hopen) (by rw [hyielded, hqueue, haccepted, hitems])
      (by rw [hyielded]; exact hnonempty) (by rw [htotal, hyielded, hsum])
      (by rw [hyielded, hlimit]; exact hle)
  | ended hend htail hall hle =>
    exact .ended (houtcome.trans hend) htail (by rw [hyielded, haccepted, hall])
      (by rw [hyielded, hlimit]; exact hle)
  | failed error hfail hfront hle htail =>
    exact .failed error (houtcome.trans hfail) (by rw [hyielded, haccepted]; exact hfront)
      (by rw [hyielded, hlimit]; exact hle) (by rw [hlimit, haccepted]; exact htail)

/-- A chunk is accepted by an open channel. -/
theorem Consumed.accept (h : Consumed u []) (hopen : u.outcome = none) (bytes : List UInt8) :
    Consumed { u.push (.ok bytes) with accepted := u.accepted ++ [bytes] } [] := by
  obtain ⟨hitems, hnonempty, htotal, hlimit⟩ := h.of_open hopen
  refine .waiting hopen ?_ hnonempty htotal hlimit
  rw [List.append_nil] at hitems
  simp only [Upload.push, List.map_append, List.append_nil, ← hitems, List.append_assoc]
  rfl

/-- An open channel is closed by an item. -/
theorem Consumed.close (h : Consumed u []) (hopen : u.outcome = none) (item : Item) :
    Consumed (u.push item) [item] := by
  obtain ⟨hitems, hnonempty, htotal, hlimit⟩ := h.of_open hopen
  refine .waiting hopen ?_ hnonempty htotal hlimit
  rw [List.append_nil] at hitems
  simp only [Upload.push, ← hitems, List.append_assoc]

end

end NyxId.ProxyUploads
