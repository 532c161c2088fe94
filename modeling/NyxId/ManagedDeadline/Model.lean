import NyxId.Interleave.Runs
import Mathlib.Algebra.Group.Int.Defs
import Mathlib.Algebra.Group.Nat.Defs
import Mathlib.Data.Int.Notation
import Mathlib.Data.Nat.Notation
import Mathlib.Tactic.Common

/-!
The local cutoff of a managed runtime: one marker in a directory, copies of it in memory, a
wall clock that may read anything and a monotonic clock for each boot.
-/

namespace NyxId.ManagedDeadline

open Interleave

structure Binding where
  nodeId : String
  sandboxUid : String
  podUid : String
  runtimeGeneration : UInt64
  credentialEpoch : UInt64
  writerFence : String
  operationId : String
  deliveryId : String
  deriving DecidableEq

structure RuntimeWindow where
  binding : Binding
  controlRevision : UInt64
  runNotAfterMs : Int64

structure HostClockSample where
  utcMs : Int64
  monotonicMs : UInt64
  bootId : String

structure DeadlineMarker where
  binding : Binding
  revision : UInt64
  cutoffMs : Int64
  bootId : String
  monotonicCutoffMs : UInt64
  lastUtcMs : Int64
  closed : Bool
  deriving DecidableEq

def later (a b : Int64) : Int64 := if a.toInt < b.toInt then b else a

/-- `live_at`: the answer and the marker as the check leaves it. -/
def DeadlineMarker.liveAt (marker : DeadlineMarker) (now : HostClockSample) :
    Bool × DeadlineMarker :=
  let closed := marker.closed || now.bootId ≠ marker.bootId ||
    now.utcMs.toInt < marker.lastUtcMs.toInt || marker.cutoffMs.toInt ≤ now.utcMs.toInt ||
    marker.monotonicCutoffMs.toNat ≤ now.monotonicMs.toNat
  (!closed, { marker with closed := closed, lastUtcMs := later marker.lastUtcMs now.utcMs })

/-- The monotonic bound of an earlier revision, moved by the change of the cutoff. -/
def translatedCutoff (prior : DeadlineMarker) (cutoffMs : Int64) : ℤ :=
  prior.monotonicCutoffMs.toNat + cutoffMs.toInt - prior.cutoffMs.toInt

def monotonicCutoff (prior : Option DeadlineMarker) (now : HostClockSample) (cutoffMs : Int64) :
    Except String UInt64 :=
  if cutoffMs.toInt ≤ now.utcMs.toInt then .error "managed deadline expired"
  else
    let remaining := cutoffMs.toInt - now.utcMs.toInt
    if 2 ^ 63 ≤ remaining then .error "managed deadline overflow"
    else
      let sampled := now.monotonicMs.toNat + remaining.toNat
      if 2 ^ 64 ≤ sampled then .error "managed deadline overflow"
      else
        match prior with
        | none => .ok (UInt64.ofNat sampled)
        | some prior =>
          let translated := translatedCutoff prior cutoffMs
          if translated < 0 ∨ 2 ^ 64 ≤ translated then .error "managed deadline overflow"
          else .ok (UInt64.ofNat (min sampled translated.toNat))

/-- The binding of a later generation, or of a later epoch in the same one. -/
def Newer (binding other : Binding) : Prop :=
  binding.runtimeGeneration.toNat < other.runtimeGeneration.toNat ∨
    (binding.runtimeGeneration = other.runtimeGeneration ∧
      binding.credentialEpoch.toNat < other.credentialEpoch.toNat)

instance (binding other : Binding) : Decidable (Newer binding other) :=
  inferInstanceAs (Decidable (_ ∨ _))

/-- What a call writes to the file, if it gets so far, and what it answers after that. -/
abbrev Effect (α : Type) := Option DeadlineMarker × Except String α

def installFresh (prior : Option DeadlineMarker) (window : RuntimeWindow) (now : HostClockSample) :
    Effect DeadlineMarker :=
  match monotonicCutoff prior now window.runNotAfterMs with
  | .error e => (none, .error e)
  | .ok cutoff =>
    let marker : DeadlineMarker :=
      { binding := window.binding
        revision := window.controlRevision
        cutoffMs := window.runNotAfterMs
        bootId := now.bootId
        monotonicCutoffMs := cutoff
        lastUtcMs := now.utcMs
        closed := false }
    (some marker, .ok marker)

def installDeadlineMarker (window : RuntimeWindow) (now : HostClockSample)
    (file : Option DeadlineMarker) : Effect DeadlineMarker :=
  match file with
  | none => installFresh none window now
  | some previous =>
    if previous.binding = window.binding then
      let (live, prior) := previous.liveAt now
      if !live then (some prior, .error "managed deadline is terminal")
      else if window.controlRevision.toNat < prior.revision.toNat then
        (none, .error "stale managed deadline revision")
      else if window.controlRevision = prior.revision then
        if window.runNotAfterMs = prior.cutoffMs then (some prior, .ok prior)
        else (none, .error "managed deadline revision mismatch")
      else installFresh (some prior) window now
    else if previous.binding.nodeId = window.binding.nodeId ∧
        Newer previous.binding window.binding then
      installFresh none window now
    else (none, .error "managed deadline binding must advance")

def closeDeadlineMarker (marker : DeadlineMarker) (file : Option DeadlineMarker) : Effect Unit :=
  match file with
  | none => (none, .error "managed deadline file missing")
  | some current =>
    if current.binding = marker.binding ∧ current.revision = marker.revision then
      (some { current with closed := true, lastUtcMs := later current.lastUtcMs marker.lastUtcMs },
        .ok ())
    else (none, .ok ())

/-- How the replacement of the file ends; it can take effect and still fail. -/
inductive Write where
  | done
  | failed
  | unsynced
  deriving DecidableEq

def replaced (file : Option DeadlineMarker) (write : Write) (written : Option DeadlineMarker) :
    Option DeadlineMarker :=
  if write = .failed then file else written <|> file

def answered {α : Type} (write : Write) (effect : Effect α) : Except String α :=
  if effect.1.isSome ∧ write ≠ .done then .error "managed deadline not stored" else effect.2

structure World where
  file : Option DeadlineMarker
  /-- Markers that a process holds in memory. -/
  held : List DeadlineMarker
  bootId : String
  monotonicMs : UInt64
  /-- The boots so far. -/
  boots : List String

def World.start (bootId : String) (monotonicMs : UInt64) : World :=
  { file := none, held := [], bootId, monotonicMs, boots := [bootId] }

def World.sample (w : World) (utcMs : Int64) : HostClockSample := ⟨utcMs, w.monotonicMs, w.bootId⟩

def World.install (w : World) (window : RuntimeWindow) (utcMs : Int64) : Effect DeadlineMarker :=
  installDeadlineMarker window (w.sample utcMs) w.file

inductive Event where
  | install (window : RuntimeWindow) (utcMs : Int64) (write : Write)
  | close (marker : DeadlineMarker) (write : Write)
  | live (held : ℕ) (utcMs : Option Int64)
  | read
  | later (monotonicMs : UInt64)
  | restart
  | reboot (bootId : String) (monotonicMs : UInt64)

/-- A check without a clock closes the marker. -/
def DeadlineMarker.live (marker : DeadlineMarker) (now : Option HostClockSample) :
    Bool × DeadlineMarker :=
  match now with
  | none => (false, { marker with closed := true })
  | some now => marker.liveAt now

inductive Step (w : World) : Event → World → Prop
  | install (window : RuntimeWindow) (utcMs : Int64) (write : Write) :
      Step w (.install window utcMs write)
        { w with
          file := replaced w.file write (w.install window utcMs).1
          held := match answered write (w.install window utcMs) with
            | .ok marker => w.held ++ [marker]
            | .error _ => w.held }
  | close (marker : DeadlineMarker) (write : Write) (hheld : marker ∈ w.held) :
      Step w (.close marker write)
        { w with file := replaced w.file write (closeDeadlineMarker marker w.file).1 }
  | live (i : ℕ) (marker : DeadlineMarker) (utcMs : Option Int64) (hheld : w.held[i]? = some marker) :
      Step w (.live i utcMs)
        { w with held := w.held.set i (marker.live (utcMs.map w.sample)).2 }
  | read (marker : DeadlineMarker) (hfile : w.file = some marker) :
      Step w .read { w with held := w.held ++ [marker] }
  | later (monotonicMs : UInt64) (hle : w.monotonicMs.toNat ≤ monotonicMs.toNat) :
      Step w (.later monotonicMs) { w with monotonicMs := monotonicMs }
  | restart : Step w .restart { w with held := [] }
  | reboot (bootId : String) (monotonicMs : UInt64) (hfresh : bootId ∉ w.boots) :
      Step w (.reboot bootId monotonicMs)
        { w with held := [], bootId, monotonicMs, boots := bootId :: w.boots }

def World.Reached (w : World) : Prop :=
  ∃ bootId monotonicMs events, Runs Step (World.start bootId monotonicMs) events w

end NyxId.ManagedDeadline
