import NyxId.ManagedDeadline.Model
import Mathlib.Algebra.Order.Ring.Int

/-!
The stored marker only advances: to a newer binding on its node, or to a later revision of its
binding under a bound that moves with the cutoff. A dead marker stays dead.
-/

namespace NyxId.ManagedDeadline

open Interleave

theorem Newer.trans {a b c : Binding} (h : Newer a b) (h' : Newer b c) : Newer a c := by
  rcases h with hgen | ⟨hgen, hepoch⟩ <;> rcases h' with hgen' | ⟨hgen', hepoch'⟩
  · exact Or.inl (hgen.trans hgen')
  · exact Or.inl (hgen' ▸ hgen)
  · exact Or.inl (hgen ▸ hgen')
  · exact Or.inr ⟨hgen.trans hgen', hepoch.trans hepoch'⟩

theorem Newer.ne {a b : Binding} (h : Newer a b) : a ≠ b := by
  rintro rfl
  rcases h with h | ⟨-, h⟩ <;> exact lt_irrefl _ h

/-- The same binding later on. -/
structure Renewed (m m' : DeadlineMarker) : Prop where
  revision : m.revision.toNat ≤ m'.revision.toNat
  boot : m'.bootId = m.bootId
  same : m.revision = m'.revision →
    m'.cutoffMs = m.cutoffMs ∧ m'.monotonicCutoffMs = m.monotonicCutoffMs
  bound : (m'.monotonicCutoffMs.toNat : ℤ) ≤
    m.monotonicCutoffMs.toNat + (m'.cutoffMs.toInt - m.cutoffMs.toInt)

structure Advances (m m' : DeadlineMarker) : Prop where
  node : m'.binding.nodeId = m.binding.nodeId
  binding : m'.binding = m.binding ∨ Newer m.binding m'.binding
  renewed : m'.binding = m.binding → Renewed m m'

theorem Renewed.trans {m m' m'' : DeadlineMarker} (h : Renewed m m') (h' : Renewed m' m'') :
    Renewed m m'' where
  revision := h.revision.trans h'.revision
  boot := h'.boot.trans h.boot
  same heq := by
    have hle := h.revision
    have hle' := h'.revision
    rw [← heq] at hle'
    have hmiddle : m.revision = m'.revision := UInt64.toNat_inj.mp (le_antisymm hle hle')
    obtain ⟨hcutoff, hmonotonic⟩ := h.same hmiddle
    obtain ⟨hcutoff', hmonotonic'⟩ := h'.same (hmiddle.symm.trans heq)
    exact ⟨hcutoff'.trans hcutoff, hmonotonic'.trans hmonotonic⟩
  bound := by
    have hb := h.bound
    have hb' := h'.bound
    omega

theorem Advances.of_renewed {m m' : DeadlineMarker} (hbinding : m'.binding = m.binding)
    (h : Renewed m m') : Advances m m' :=
  ⟨by rw [hbinding], Or.inl hbinding, fun _ => h⟩

theorem Renewed.of_same {m m' : DeadlineMarker} (hrevision : m'.revision = m.revision)
    (hcutoff : m'.cutoffMs = m.cutoffMs) (hboot : m'.bootId = m.bootId)
    (hmonotonic : m'.monotonicCutoffMs = m.monotonicCutoffMs) : Renewed m m' where
  revision := by rw [hrevision]
  boot := hboot
  same _ := ⟨hcutoff, hmonotonic⟩
  bound := by
    rw [hmonotonic, hcutoff]
    omega

theorem Advances.refl (m : DeadlineMarker) : Advances m m :=
  .of_renewed rfl (.of_same rfl rfl rfl rfl)

theorem Advances.trans {m m' m'' : DeadlineMarker} (h : Advances m m') (h' : Advances m' m'') :
    Advances m m'' where
  node := h'.node.trans h.node
  binding := by
    rcases h.binding with hsame | hnewer <;> rcases h'.binding with hsame' | hnewer'
    · exact Or.inl (hsame'.trans hsame)
    · exact Or.inr (hsame ▸ hnewer')
    · exact Or.inr (hsame' ▸ hnewer)
    · exact Or.inr (hnewer.trans hnewer')
  renewed heq := by
    rcases h.binding with hsame | hnewer <;> rcases h'.binding with hsame' | hnewer'
    · exact (h.renewed hsame).trans (h'.renewed hsame')
    · exact absurd (hsame.trans heq.symm) hnewer'.ne
    · exact absurd (heq.symm.trans hsame') hnewer.ne
    · exact absurd heq.symm (hnewer.trans hnewer').ne

/-- A marker that no sample of the present clock finds alive. -/
def Dead (w : World) (m : DeadlineMarker) : Prop :=
  m.closed = true ∨ m.bootId ≠ w.bootId ∨ m.monotonicCutoffMs.toNat ≤ w.monotonicMs.toNat

theorem liveAt_dead {w : World} {m : DeadlineMarker} (h : Dead w m) (utcMs : Int64) :
    (m.liveAt (w.sample utcMs)).1 = false := by
  unfold DeadlineMarker.liveAt World.sample
  rcases h with h | h | h
  · simp [h]
  · simp [Ne.symm h]
  · simp [h]

/-- The parts of a marker that a check leaves alone. -/
theorem liveAt_same (m : DeadlineMarker) (now : HostClockSample) :
    Advances m (m.liveAt now).2 ∧ (m.liveAt now).2.binding = m.binding ∧
      (m.closed = true → (m.liveAt now).2.closed = true) :=
  ⟨.of_renewed rfl (.of_same rfl rfl rfl rfl), rfl, fun h => by simp [DeadlineMarker.liveAt, h]⟩

theorem live_of_liveAt {m : DeadlineMarker} {now : HostClockSample}
    (h : (m.liveAt now).1 = true) : now.bootId = m.bootId := by
  unfold DeadlineMarker.liveAt at h
  simp only [Bool.not_eq_true', Bool.or_eq_false_iff, decide_eq_false_iff_not, ne_eq, decide_not, Bool.not_eq_false', decide_eq_true_eq] at h
  exact h.1.1.1.2

theorem monotonicCutoff_some {prior : DeadlineMarker} {now : HostClockSample} {cutoffMs : Int64}
    {cutoff : UInt64} (h : monotonicCutoff (some prior) now cutoffMs = .ok cutoff) :
    (cutoff.toNat : ℤ) ≤ translatedCutoff prior cutoffMs := by
  unfold monotonicCutoff at h
  split at h
  · cases h
  dsimp only at h
  split at h
  · cases h
  split at h
  · cases h
  rename_i hsampled
  split at h
  · cases h
  · rename_i htranslated
    rw [← Except.ok.inj h, UInt64.toNat_ofNat_of_lt' (by
      rw [UInt64.size]
      omega)]
    omega

/-- The three ways in which an installation writes. -/
inductive Installs (w : World) (window : RuntimeWindow) (utcMs : Int64) :
    Effect DeadlineMarker → Prop
  | refused (e : String) : Installs w window utcMs (none, .error e)
  | terminal (m : DeadlineMarker) (e : String) (hfile : w.file = some m)
      (hbinding : m.binding = window.binding)
      (hdead : (m.liveAt (w.sample utcMs)).1 = false) :
      Installs w window utcMs (some (m.liveAt (w.sample utcMs)).2, .error e)
  | stored (m : DeadlineMarker) (hbinding : m.binding = window.binding) (hboot : m.bootId = w.bootId)
      (hfile : ∀ previous, w.file = some previous → Advances previous m ∧
        (previous.binding = window.binding → (previous.liveAt (w.sample utcMs)).1 = true)) :
      Installs w window utcMs (some m, .ok m)

theorem installFresh_stored {w : World} {window : RuntimeWindow} {utcMs : Int64}
    {prior : Option DeadlineMarker}
    (hfile : ∀ previous m, w.file = some previous → m.binding = window.binding →
      m.revision = window.controlRevision → m.cutoffMs = window.runNotAfterMs →
      m.bootId = w.bootId → (∀ p, prior = some p → (m.monotonicCutoffMs.toNat : ℤ) ≤
        translatedCutoff p window.runNotAfterMs) → Advances previous m ∧
        (previous.binding = window.binding → (previous.liveAt (w.sample utcMs)).1 = true)) :
    Installs w window utcMs (installFresh prior window (w.sample utcMs)) := by
  unfold installFresh
  cases hcutoff : monotonicCutoff prior (w.sample utcMs) window.runNotAfterMs with
  | error e => exact .refused e
  | ok cutoff =>
    refine .stored _ rfl rfl fun previous hprevious => hfile previous _ hprevious rfl rfl rfl rfl ?_
    intro p hp
    rw [hp] at hcutoff
    exact monotonicCutoff_some hcutoff

theorem install_cases (w : World) (window : RuntimeWindow) (utcMs : Int64) :
    Installs w window utcMs (w.install window utcMs) := by
  unfold World.install installDeadlineMarker
  split
  · rename_i hnone
    refine installFresh_stored fun previous m hprevious => ?_
    rw [hnone] at hprevious
    cases hprevious
  rename_i previous hprevious
  split
  · rename_i hbinding
    dsimp only
    split
    · rename_i hdead
      exact .terminal previous _ hprevious hbinding (by simpa using hdead)
    rename_i hlive
    rw [Bool.not_eq_true', Bool.not_eq_false] at hlive
    split
    · exact .refused _
    rename_i hrevision
    split
    · split
      · refine .stored _ hbinding (live_of_liveAt hlive).symm fun other hother => ?_
        rw [hprevious] at hother
        obtain rfl := Option.some.inj hother
        exact ⟨(liveAt_same _ _).1, fun _ => hlive⟩
      · exact .refused _
    · rename_i hdifferent
      refine installFresh_stored fun other m hother hm hrev hcut hboot htranslated => ?_
      rw [hprevious] at hother
      obtain rfl := Option.some.inj hother
      refine ⟨.of_renewed (hm.trans hbinding.symm) ?_, fun _ => hlive⟩
      refine ⟨?_, ?_, ?_, ?_⟩
      · rw [hrev]
        exact not_lt.mp hrevision
      · rw [hboot]
        exact live_of_liveAt hlive
      · intro heq
        exact absurd (hrev.symm.trans heq.symm) hdifferent
      · have hbound := htranslated _ rfl
        rw [hcut]
        unfold translatedCutoff DeadlineMarker.liveAt at hbound
        dsimp only at hbound
        omega
  · rename_i hbinding
    split
    · rename_i hnewer
      refine installFresh_stored fun other m hother hm _ _ _ _ => ?_
      rw [hprevious] at hother
      obtain rfl := Option.some.inj hother
      refine ⟨⟨?_, ?_, fun heq => absurd (heq.symm.trans hm) hbinding⟩,
        fun heq => absurd heq hbinding⟩
      · rw [hm]
        exact hnewer.1.symm
      · rw [hm]
        exact Or.inr hnewer.2
    · exact .refused _

theorem close_cases (marker : DeadlineMarker) (file : Option DeadlineMarker) :
    (closeDeadlineMarker marker file).1 = none ∨ ∃ current m, file = some current ∧
      (closeDeadlineMarker marker file).1 = some m ∧ Advances current m ∧
      m.binding = current.binding ∧ m.closed = true := by
  unfold closeDeadlineMarker
  split
  · exact Or.inl rfl
  · split
    · exact Or.inr ⟨_, _, rfl, rfl, .of_renewed rfl (.of_same rfl rfl rfl rfl), rfl, rfl⟩
    · exact Or.inl rfl

theorem replaced_cases (file : Option DeadlineMarker) (write : Write)
    (written : Option DeadlineMarker) : replaced file write written = file ∨
      ∃ m, written = some m ∧ replaced file write written = some m := by
  unfold replaced
  split
  · exact Or.inl rfl
  · cases written with
    | none => exact Or.inl rfl
    | some m => exact Or.inr ⟨m, rfl, rfl⟩

/-- The binding is over: its marker is dead, or the directory has gone on without it. -/
def Over (w : World) (binding : Binding) : Prop :=
  ∃ m, w.file = some m ∧ (m.binding = binding ∧ Dead w m ∨
    m.binding ≠ binding ∧ (m.binding.nodeId = binding.nodeId → Newer binding m.binding))

/-- No binding that is over is installed again. -/
theorem Over.refused {w : World} {window : RuntimeWindow} (h : Over w window.binding)
    (utcMs : Int64) (write : Write) (m : DeadlineMarker) :
    answered write (w.install window utcMs) ≠ .ok m := by
  obtain ⟨current, hfile, hover⟩ := h
  have hrefused : ∀ effect, Installs w window utcMs effect → effect.2 ≠ .ok m := by
    intro effect heffect
    cases heffect with
    | refused e => exact fun h => (nomatch h)
    | terminal _ e => exact fun h => (nomatch h)
    | stored marker hbinding hboot hstored =>
      intro _
      obtain ⟨hadvances, hlive⟩ := hstored current hfile
      rcases hover with ⟨hsame, hdead⟩ | ⟨hother, hnewer⟩
      · rw [liveAt_dead hdead utcMs] at hlive
        exact absurd (hlive hsame) Bool.false_ne_true
      · have hnode : current.binding.nodeId = window.binding.nodeId := by
          rw [← hadvances.node, hbinding]
        rcases hadvances.binding with hsame | hagain
        · exact hother (hsame.symm.trans hbinding)
        · rw [hbinding] at hagain
          exact (hagain.trans (hnewer hnode)).ne rfl
  intro h
  unfold answered at h
  split at h
  · cases h
  · exact hrefused _ (install_cases w window utcMs) h

/-- Boots that have been seen and markers that were stored in one of them. -/
structure Known (w : World) : Prop where
  boot : w.bootId ∈ w.boots
  file : ∀ m, w.file = some m → m.bootId ∈ w.boots

/-- One step keeps what is known, moves the file on and ends no end. -/
structure Moves (w w' : World) : Prop where
  known : Known w'
  file : ∀ m, w.file = some m → ∃ m', w'.file = some m' ∧ Advances m m'
  ended : ∀ binding, Over w binding → Over w' binding

theorem Over.advance {w : World} {file : Option DeadlineMarker} {m m' : DeadlineMarker}
    {binding : Binding} (h : Over w binding) (hfile : w.file = some m) (hfile' : file = some m')
    (hadvances : Advances m m') (hdead : m'.binding = m.binding → Dead w m → Dead w m') :
    Over { w with file := file } binding := by
  obtain ⟨current, hcurrent, hover⟩ := h
  rw [hfile] at hcurrent
  obtain rfl := Option.some.inj hcurrent
  refine ⟨m', hfile', ?_⟩
  rcases hover with ⟨hsame, hended⟩ | ⟨hother, hnewer⟩
  · rcases hadvances.binding with heq | hnewer
    · exact Or.inl ⟨heq.trans hsame, hdead heq hended⟩
    · rw [hsame] at hnewer
      exact Or.inr ⟨hnewer.ne.symm, fun _ => hnewer⟩
  · rcases hadvances.binding with heq | hagain
    · exact Or.inr ⟨by rwa [heq], by rwa [heq]⟩
    · refine Or.inr ⟨fun heq => ?_, fun hnode => ?_⟩
      · have hnode : m.binding.nodeId = binding.nodeId := by
          rw [← hadvances.node, heq]
        rw [heq] at hagain
        exact (hagain.trans (hnewer hnode)).ne rfl
      · exact (hnewer (hadvances.node.symm.trans hnode)).trans hagain

/-- Replacing the file by a marker that goes on from the one before. -/
theorem moves_of_file {w : World} {file : Option DeadlineMarker} {held : List DeadlineMarker}
    (hw : Known w) (hfile : file = w.file ∨ ∃ m', file = some m' ∧ m'.bootId ∈ w.boots ∧
      ∀ m, w.file = some m → Advances m m' ∧ (m'.binding = m.binding → Dead w m → Dead w m')) :
    Moves w { w with file := file, held := held } := by
  rcases hfile with rfl | ⟨m', rfl, hboot, hnext⟩
  · exact ⟨⟨hw.boot, hw.file⟩, fun m hm => ⟨m, hm, .refl m⟩, fun _ h => h⟩
  · refine ⟨⟨hw.boot, fun m hm => Option.some.inj hm ▸ hboot⟩,
      fun m hm => ⟨m', rfl, (hnext m hm).1⟩, fun binding h => ?_⟩
    have hover := h
    obtain ⟨m, hm, -⟩ := h
    exact hover.advance hm rfl (hnext m hm).1 (hnext m hm).2

theorem Step.moves {w w' : World} {e : Event} (hstep : Step w e w') (hw : Known w) : Moves w w' := by
  cases hstep with
  | install window utcMs write =>
    apply moves_of_file hw
    rcases replaced_cases w.file write (w.install window utcMs).1 with hsame | ⟨m', hwritten, hfile⟩
    · exact Or.inl hsame
    refine Or.inr ⟨m', hfile, ?_⟩
    cases heffect : w.install window utcMs with
    | mk written answer =>
      rw [heffect] at hwritten
      have hcases := install_cases w window utcMs
      rw [heffect] at hcases
      cases hcases with
      | refused e => cases hwritten
      | terminal m e hm hbinding hdead =>
        obtain rfl := Option.some.inj hwritten
        refine ⟨hw.file m hm, fun current hcurrent => ?_⟩
        rw [hm] at hcurrent
        obtain rfl := Option.some.inj hcurrent
        refine ⟨(liveAt_same _ _).1, fun _ hended => ?_⟩
        rcases hended with hclosed | hboot | hpassed
        · exact Or.inl ((liveAt_same _ _).2.2 hclosed)
        · exact Or.inr (Or.inl hboot)
        · exact Or.inr (Or.inr hpassed)
      | stored _ hbinding hboot hstored =>
        obtain rfl := Option.some.inj hwritten
        refine ⟨hboot ▸ hw.boot, fun current hcurrent => ?_⟩
        obtain ⟨hadvances, hlive⟩ := hstored current hcurrent
        refine ⟨hadvances, fun hsame hended => ?_⟩
        rw [liveAt_dead hended utcMs] at hlive
        exact absurd (hlive (hsame.symm.trans hbinding)) Bool.false_ne_true
  | close marker write hheld =>
    apply moves_of_file hw
    rcases replaced_cases w.file write (closeDeadlineMarker marker w.file).1 with
      hsame | ⟨m', hwritten, hfile⟩
    · exact Or.inl hsame
    rcases close_cases marker w.file with
      hnone | ⟨current, m, hcurrent, hclosed, hadvances, hsame, hm⟩
    · rw [hnone] at hwritten
      cases hwritten
    · rw [hclosed] at hwritten
      obtain rfl := Option.some.inj hwritten
      refine Or.inr ⟨m, hfile, ?_, fun other hother => ?_⟩
      · rw [(hadvances.renewed hsame).boot]
        exact hw.file current hcurrent
      · rw [hcurrent] at hother
        obtain rfl := Option.some.inj hother
        exact ⟨hadvances, fun _ _ => Or.inl hm⟩
  | live i marker utcMs hheld => exact moves_of_file hw (Or.inl rfl)
  | read marker hfile => exact moves_of_file hw (Or.inl rfl)
  | later monotonicMs hle =>
    refine ⟨⟨hw.boot, hw.file⟩, fun m hm => ⟨m, hm, .refl m⟩, fun binding h => ?_⟩
    obtain ⟨m, hm, hover⟩ := h
    refine ⟨m, hm, hover.imp_left ?_⟩
    rintro ⟨hsame, hended⟩
    exact ⟨hsame, hended.imp_right (Or.imp_right fun hpassed => hpassed.trans hle)⟩
  | restart => exact moves_of_file hw (Or.inl rfl)
  | reboot bootId monotonicMs hfresh =>
    refine ⟨⟨List.mem_cons_self, fun m hm => List.mem_cons_of_mem _ (hw.file m hm)⟩,
      fun m hm => ⟨m, hm, .refl m⟩, fun binding h => ?_⟩
    obtain ⟨m, hm, hover⟩ := h
    refine ⟨m, hm, hover.imp_left ?_⟩
    rintro ⟨hsame, -⟩
    refine ⟨hsame, Or.inr (Or.inl ?_)⟩
    rintro rfl
    exact hfresh (hw.file m hm)

theorem World.Reached.known {w : World} (hw : w.Reached) : Known w := by
  obtain ⟨bootId, monotonicMs, events, hrun⟩ := hw
  refine hrun.preserves (fun s e s' hs hstep => (hstep.moves hs).known) ?_
  exact ⟨List.mem_singleton_self _, fun m hm => nomatch hm⟩

theorem Moves.trans {w w' w'' : World} (h : Moves w w') (h' : Moves w' w'') : Moves w w'' where
  known := h'.known
  file m hm := by
    obtain ⟨m', hm', hadvances⟩ := h.file m hm
    obtain ⟨m'', hm'', hadvances'⟩ := h'.file m' hm'
    exact ⟨m'', hm'', hadvances.trans hadvances'⟩
  ended binding hover := h'.ended binding (h.ended binding hover)

theorem Moves.refl {w : World} (hw : Known w) : Moves w w :=
  ⟨hw, fun m hm => ⟨m, hm, .refl m⟩, fun _ h => h⟩

theorem moves_of_runs {w w' : World} {events : List Event} (hw : Known w)
    (hrun : Runs Step w events w') : Moves w w' :=
  hrun.preserves (fun _ _ _ hs hstep => hs.trans (hstep.moves hs.known)) (.refl hw)

/-- A live check of the marker in the file, when its binding is over. -/
theorem Over.not_live {w : World} {m : DeadlineMarker} (h : Over w m.binding)
    (hfile : w.file = some m) (utcMs : Option Int64) : (m.live (utcMs.map w.sample)).1 = false := by
  obtain ⟨current, hcurrent, hover⟩ := h
  rw [hfile] at hcurrent
  obtain rfl := Option.some.inj hcurrent
  cases utcMs with
  | none => rfl
  | some utcMs =>
    rcases hover with ⟨-, hdead⟩ | ⟨hother, -⟩
    · exact liveAt_dead hdead utcMs
    · exact absurd rfl hother

/-- Whether `i128` holds an integer. -/
def InI128 (n : ℤ) : Prop := -2 ^ 127 ≤ n ∧ n < 2 ^ 127

theorem translation_in_range (prior : DeadlineMarker) (cutoffMs : Int64) :
    InI128 (prior.monotonicCutoffMs.toNat + cutoffMs.toInt) ∧
      InI128 (translatedCutoff prior cutoffMs) := by
  have hmonotonic := prior.monotonicCutoffMs.toNat_lt
  have hlow := cutoffMs.le_toInt
  have hhigh := cutoffMs.toInt_lt
  have hlow' := prior.cutoffMs.le_toInt
  have hhigh' := prior.cutoffMs.toInt_lt
  unfold InI128 translatedCutoff
  omega

/-- Deadlines only tighten, whatever the wall clock reads: the binding that the directory has
closed, or outlived, is not installed and its stored marker is not alive again. -/
theorem deadlines_only_tighten {w w' : World} {events : List Event} (hw : w.Reached)
    (hrun : Runs Step w events w') :
    (∀ m, w.file = some m →
      m.closed = true ∨ m.bootId = w.bootId ∧ m.monotonicCutoffMs.toNat ≤ w.monotonicMs.toNat →
      (∀ window utcMs write stored, window.binding = m.binding →
        answered write (w'.install window utcMs) ≠ .ok stored) ∧
      ∀ m' utcMs, w'.file = some m' → m'.binding = m.binding →
        (m'.live (Option.map w'.sample utcMs)).1 = false) ∧
    (∀ m m', w.file = some m → w'.file = some m' → m'.binding ≠ m.binding →
      ∀ window utcMs write stored, window.binding = m.binding →
        answered write (w'.install window utcMs) ≠ .ok stored) ∧
    (∀ (m : DeadlineMarker) utcMs, m.closed = true ∨ m.bootId ≠ w'.bootId ∨
      m.monotonicCutoffMs.toNat ≤ w'.monotonicMs.toNat →
      (m.live (Option.map w'.sample utcMs)).1 = false) ∧
    (∀ m, w.file = some m → ∃ m', w'.file = some m' ∧
      m'.binding.nodeId = m.binding.nodeId ∧
      (m'.binding = m.binding ∨ Newer m.binding m'.binding) ∧
      (m'.binding = m.binding →
        m.revision.toNat ≤ m'.revision.toNat ∧
        (m.revision = m'.revision →
          m'.cutoffMs = m.cutoffMs ∧ m'.monotonicCutoffMs = m.monotonicCutoffMs) ∧
        (m'.monotonicCutoffMs.toNat : ℤ) ≤
          m.monotonicCutoffMs.toNat + (m'.cutoffMs.toInt - m.cutoffMs.toInt))) ∧
    ∀ (m : DeadlineMarker) (cutoffMs : Int64),
      InI128 (m.monotonicCutoffMs.toNat + cutoffMs.toInt) ∧ InI128 (translatedCutoff m cutoffMs) := by
  have hmoves := moves_of_runs hw.known hrun
  refine ⟨fun m hm hended => ?_, fun m m' hm hm' hother => ?_, fun m utcMs hdead => ?_,
    fun m hm => ?_, translation_in_range⟩
  · have hover : Over w m.binding :=
      ⟨m, hm, Or.inl ⟨rfl, hended.imp_right fun h => Or.inr h.2⟩⟩
    have hover' := hmoves.ended _ hover
    refine ⟨fun window utcMs write stored hsame => ?_, fun m' utcMs hm' hsame => ?_⟩
    · rw [← hsame] at hover'
      exact hover'.refused utcMs write stored
    · rw [← hsame] at hover'
      exact hover'.not_live hm' utcMs
  · intro window utcMs write stored hsame
    obtain ⟨next, hnext, hadvances⟩ := hmoves.file m hm
    rw [hm'] at hnext
    obtain rfl := Option.some.inj hnext
    have hover : Over w' window.binding := by
      rw [hsame]
      exact ⟨m', hm', Or.inr ⟨hother, fun _ => hadvances.binding.resolve_left hother⟩⟩
    exact hover.refused utcMs write stored
  · cases utcMs with
    | none => rfl
    | some utcMs => exact liveAt_dead hdead utcMs
  · obtain ⟨m', hm', hadvances⟩ := hmoves.file m hm
    refine ⟨m', hm', hadvances.node, hadvances.binding, fun hsame => ?_⟩
    have hrenewed := hadvances.renewed hsame
    exact ⟨hrenewed.revision, hrenewed.same, hrenewed.bound⟩

def desktopBinding : Binding :=
  { nodeId := "n-1"
    sandboxUid := "s-1"
    podUid := "p-1"
    runtimeGeneration := 1
    credentialEpoch := 1
    writerFence := "f-1"
    operationId := "o-1"
    deliveryId := "d-1" }

def desktopWindow : RuntimeWindow := ⟨desktopBinding, 1, 61000⟩

/-- The marker that `desktopWindow` installs at 1000 on both clocks. -/
def desktopMarker : DeadlineMarker :=
  { binding := desktopBinding
    revision := 1
    cutoffMs := 61000
    bootId := "b-1"
    monotonicCutoffMs := 61000
    lastUtcMs := 1000
    closed := false }

def closedDesktop : World :=
  { file := some { desktopMarker with closed := true }
    held := [desktopMarker]
    bootId := "b-1"
    monotonicMs := 1000
    boots := ["b-1"] }

theorem closedDesktop_reached : closedDesktop.Reached := by
  refine ⟨"b-1", 1000, [.install desktopWindow 1000 .done, .close desktopMarker .done], ?_⟩
  have hinstalled : Step (World.start "b-1" 1000) (.install desktopWindow 1000 .done)
      { file := some desktopMarker
        held := [desktopMarker]
        bootId := "b-1"
        monotonicMs := 1000
        boots := ["b-1"] } :=
    .install desktopWindow 1000 .done
  exact (Runs.stay.next hinstalled).next (.close desktopMarker .done (List.mem_singleton_self _))

/-- The closed marker is not renewed. -/
theorem closedDesktop_stays_closed :
    answered .done (closedDesktop.install ⟨desktopBinding, 2, 81000⟩ 2000) ≠ .ok desktopMarker :=
  ((deadlines_only_tighten closedDesktop_reached .stay).1 _ rfl (Or.inl rfl)).1 _ _ _ _ rfl

/-- A copy in memory does not see that the marker in the file was closed. -/
theorem held_copy_outlives_close : ∃ w : World, w.Reached ∧
    ∃ m ∈ w.held, w.file = some { m with closed := true } ∧
      (m.live ((some 2000).map w.sample)).1 = true :=
  ⟨closedDesktop, closedDesktop_reached, desktopMarker, List.mem_singleton_self _, rfl, by decide⟩

end NyxId.ManagedDeadline
