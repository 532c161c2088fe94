import NyxId.MachineContexts.Model

/-!
Users of separated contexts are given once. What a call does to the registry is said in one
lemma; the invariant and what no call takes back follow from it.
-/

namespace NyxId.MachineContexts

open Interleave NyxId.MachineRequests MachineAuthority

/-- Who a user belongs to: commands of a context keep theirs across generations. -/
inductive Owner
  | command (context : String)
  | secure (context : String) (generation : ℕ)
  | dev (context : String) (generation : ℕ)
deriving DecidableEq

def browserOwned (context : String) (browser : ℕ × Browsers) : List (Owner × ℕ) :=
  [(.secure context browser.1, browser.2.secureUid), (.dev context browser.1, browser.2.devUid)]

def Allocation.owned (context : String) (entry : Allocation) : List (Owner × ℕ) :=
  (.command context, entry.commandUid) :: entry.browsers.entries.flatMap (browserOwned context)

def Registry.owned (registry : Registry) : List (Owner × ℕ) :=
  registry.contexts.entries.flatMap fun entry => entry.2.owned entry.1

structure EntryOk (uuidParses : String → Bool) (id : String) (entry : Allocation) : Prop where
  context : uuidParses id = true
  revision : 1 ≤ entry.revision
  agent : uuidParses entry.binding.agent = true
  owner : uuidParses entry.binding.owner = true
  actor : uuidParses entry.binding.actor = true
  group : entry.binding.group.all (prefixedHex "nyxg-") = true
  noZero : entry.browsers.get 0 = none
  generation : entry.generation ≠ 0
  size : entry.browsers.size ≤ maxGenerations
  last : entry.browsers.lastKey = some entry.generation

structure RegistryInv (uuidParses : String → Bool) (registry : Registry) : Prop where
  next : firstUid ≤ registry.nextUid ∧ registry.nextUid ≤ lastUid + 1
  size : registry.contexts.size ≤ maxContexts
  entries : ∀ id entry, (id, entry) ∈ registry.contexts.entries → EntryOk uuidParses id entry
  range : ∀ owner user, (owner, user) ∈ registry.owned → firstUid ≤ user ∧ user < registry.nextUid
  single : ∀ owner owner' user, (owner, user) ∈ registry.owned → (owner', user) ∈ registry.owned →
    owner = owner'

/-- What no call takes back. -/
structure Evolves (r s : Registry) : Prop where
  next : r.nextUid ≤ s.nextUid
  contexts : ∀ id a, (id, a) ∈ r.contexts.entries → ∃ b, (id, b) ∈ s.contexts.entries ∧
    b.binding = a.binding ∧ b.commandUid = a.commandUid ∧ a.generation ≤ b.generation ∧
    (b.generation = a.generation → a.quarantined = true → b.quarantined = true) ∧
    a.browsers.entries ⊆ b.browsers.entries

theorem Evolves.refl (r : Registry) : Evolves r r where
  next := le_refl _
  contexts _ a h := ⟨a, h, rfl, rfl, le_refl _, fun _ h => h, fun _ h => h⟩

theorem Evolves.trans {r s t : Registry} (h : Evolves r s) (h' : Evolves s t) : Evolves r t where
  next := h.next.trans h'.next
  contexts id a ha := by
    obtain ⟨b, hb, hbinding, hcommand, hgeneration, hquarantined, hbrowsers⟩ := h.contexts id a ha
    obtain ⟨c, hc, hbinding', hcommand', hgeneration', hquarantined', hbrowsers'⟩ :=
      h'.contexts id b hb
    refine ⟨c, hc, hbinding'.trans hbinding, hcommand'.trans hcommand, hgeneration.trans hgeneration',
      fun heq hset => ?_, fun _ hentry => hbrowsers' (hbrowsers hentry)⟩
    exact hquarantined' (by omega) (hquarantined (by omega) hset)

theorem mem_owned_iff {registry : Registry} {owner : Owner} {user : ℕ} :
    (owner, user) ∈ registry.owned ↔
      ∃ id entry, (id, entry) ∈ registry.contexts.entries ∧ (owner, user) ∈ entry.owned id := by
  unfold Registry.owned
  rw [List.mem_flatMap]
  constructor
  · rintro ⟨⟨id, entry⟩, hentry, hmem⟩
    exact ⟨id, entry, hentry, hmem⟩
  · rintro ⟨id, entry, hentry, hmem⟩
    exact ⟨(id, entry), hentry, hmem⟩

/-- Whatever is given stays with its owner. -/
theorem Evolves.owned {r s : Registry} (h : Evolves r s) {owner : Owner} {user : ℕ}
    (hmem : (owner, user) ∈ r.owned) : (owner, user) ∈ s.owned := by
  obtain ⟨id, a, ha, hmem⟩ := mem_owned_iff.mp hmem
  obtain ⟨b, hb, -, hcommand, -, -, hbrowsers⟩ := h.contexts id a ha
  refine mem_owned_iff.mpr ⟨id, b, hb, ?_⟩
  rcases List.mem_cons.mp hmem with heq | hmem
  · rw [heq, ← hcommand]
    exact List.mem_cons_self
  · obtain ⟨browser, hbrowser, hmem⟩ := List.mem_flatMap.mp hmem
    exact List.mem_cons_of_mem _ (List.mem_flatMap.mpr ⟨browser, hbrowsers hbrowser, hmem⟩)

/-- The search only moves forward. -/
theorem uid_cases (occupied : List ℕ → Bool) (fuel : ℕ) {next : ℕ} (asked : List ℕ)
    (hnext : next ≤ lastUid + 1) :
    (∃ after asked' e, uid occupied fuel next asked = (after, asked', .error e) ∧ next ≤ after ∧
      after ≤ lastUid + 1) ∨
    ∃ user asked', uid occupied fuel next asked = (user + 1, asked', .ok user) ∧ next ≤ user ∧
      user ≤ lastUid := by
  induction fuel generalizing next asked with
  | zero => exact Or.inl ⟨next, asked, _, rfl, le_refl _, hnext⟩
  | succ fuel ih =>
    unfold uid
    split
    · exact Or.inl ⟨next, asked, _, rfl, le_refl _, hnext⟩
    split
    · exact Or.inr ⟨next, _, rfl, le_refl _, by omega⟩
    · rcases @ih (next + 1) (next :: asked) (by omega) with
        ⟨after, asked', e, heq, hle, hlast⟩ | ⟨user, asked', heq, hle, hlast⟩
      · exact Or.inl ⟨after, asked', e, heq, by omega, hlast⟩
      · exact Or.inr ⟨user, asked', heq, by omega, hlast⟩

/-- The entry of a new generation over the one before it, or over an empty one. -/
def Allocation.opened (base : Allocation) (a : Authority) (secureUid devUid : ℕ) : Allocation :=
  { base with
    generation := a.generation.toNat
    revision := a.revision.toInt
    quarantined := false
    browsers := base.browsers.insert a.generation.toNat ⟨secureUid, devUid⟩ }

theorem openGeneration_cases (registry : Registry) (a : Authority) (occupied : List ℕ → Bool)
    (asked : List ℕ) (entry : Allocation) (hnext : registry.nextUid ≤ lastUid + 1) :
    (∃ after e, registry.openGeneration a occupied asked entry =
        ({ registry with nextUid := after }, .error e) ∧
      registry.nextUid ≤ after ∧ after ≤ lastUid + 1) ∨
    ∃ secureUid devUid, registry.openGeneration a occupied asked entry =
        (⟨devUid + 1, registry.contexts.insert a.contextId (entry.opened a secureUid devUid)⟩,
          .ok (entry.opened a secureUid devUid)) ∧
      registry.nextUid ≤ secureUid ∧ secureUid < devUid ∧ devUid ≤ lastUid := by
  unfold Registry.openGeneration
  rcases uid_cases occupied uidAttempts asked hnext with
    ⟨after, asked', e, heq, hle, hlast⟩ | ⟨secureUid, asked', heq, hle, hlast⟩
  · rw [heq]
    exact Or.inl ⟨after, e, rfl, hle, hlast⟩
  · rw [heq]
    dsimp only
    rcases uid_cases occupied uidAttempts asked' (Nat.succ_le_succ hlast) with
      ⟨after, asked'', e, heq', hle', hlast'⟩ | ⟨devUid, asked'', heq', hle', hlast'⟩
    · rw [heq']
      exact Or.inl ⟨after, e, rfl, by omega, hlast'⟩
    · rw [heq']
      exact Or.inr ⟨secureUid, devUid, rfl, hle, by omega, hlast'⟩

/-- What an authority passes before users are allocated. -/
structure Checked (uuidParses : String → Bool) (a : Authority) : Prop where
  revision : 1 ≤ a.revision.toInt
  generation : a.generation.toNat ≠ 0
  context : uuidParses a.contextId = true

/-- A new generation of a context, or a new context. -/
structure Opens (uuidParses : String → Bool) (r : Registry) (a : Authority) (base : Allocation)
    (secureUid devUid : ℕ) : Prop where
  checked : Checked uuidParses a
  binding : base.binding = Binding.from a
  base : ((a.contextId, base) ∈ r.contexts.entries ∧ base.generation < a.generation.toNat ∧
      base.browsers.size < maxGenerations) ∨
    (r.contexts.get a.contextId = none ∧ r.contexts.size < maxContexts ∧
      base.browsers.entries = [] ∧ r.nextUid ≤ base.commandUid ∧ base.commandUid < secureUid)
  secure : r.nextUid ≤ secureUid
  dev : secureUid < devUid
  last : devUid ≤ lastUid

/-- Everything that `allocate` can do. -/
inductive Allocates (uuidParses : String → Bool) (r : Registry) (a : Authority) :
    Registry × Except String Allocation → Prop where
  | refused (after : ℕ) (e : String) (hle : r.nextUid ≤ after) (hlast : after ≤ lastUid + 1) :
      Allocates uuidParses r a ({ r with nextUid := after }, .error e)
  | current (old : Allocation) (hold : (a.contextId, old) ∈ r.contexts.entries)
      (hgeneration : a.generation.toNat = old.generation) (hlive : old.quarantined = false) :
      Allocates uuidParses r a (r, .ok old)
  | opened (base : Allocation) (secureUid devUid : ℕ)
      (hopens : Opens uuidParses r a base secureUid devUid) :
      Allocates uuidParses r a
        (⟨devUid + 1, r.contexts.insert a.contextId (base.opened a secureUid devUid)⟩,
          .ok (base.opened a secureUid devUid))

theorem allocate_cases {uuidParses : String → Bool} {r : Registry} {a : Authority}
    {occupied : List ℕ → Bool} (hnext : r.nextUid ≤ lastUid + 1) :
    Allocates uuidParses r a (r.allocate uuidParses a occupied) := by
  have hrefused (e : String) : Allocates uuidParses r a (r, .error e) :=
    .refused r.nextUid e (le_refl _) hnext
  unfold Registry.allocate
  split
  · exact hrefused _
  rename_i hchecks
  simp only [ne_eq, decide_not, Bool.not_eq_true, Bool.or_eq_false_iff, Bool.not_eq_false',
    decide_eq_true_eq, decide_eq_false_iff_not] at hchecks
  have hchecked : Checked uuidParses a := by
    refine ⟨by omega, fun hzero => hchecks.1.2 ?_, hchecks.2⟩
    exact UInt64.toNat_inj.mp hzero
  dsimp only
  cases hget : r.contexts.get a.contextId with
  | some old =>
    have hold := SortedMap.get_eq_some_iff.mp hget
    dsimp only
    split
    · exact hrefused _
    rename_i hbinding
    split
    · exact hrefused _
    rename_i hbehind
    simp only [Bool.or_eq_true, decide_eq_true_eq, not_or, not_lt] at hbehind
    split
    · rename_i hgeneration
      split
      · exact hrefused _
      · rename_i hlive
        exact .current old hold hgeneration (by simpa using hlive)
    rename_i hnewer
    split
    · exact hrefused _
    rename_i hsize
    rcases openGeneration_cases r a occupied [] old hnext with
      ⟨after, e, heq, hle, hlast⟩ | ⟨secureUid, devUid, heq, hsecure, hdev, hlast⟩
    · rw [heq]
      exact .refused after e hle hlast
    · rw [heq]
      exact .opened old secureUid devUid ⟨hchecked, not_not.mp hbinding,
        Or.inl ⟨hold, by omega, not_le.mp hsize⟩, hsecure, hdev, hlast⟩
  | none =>
    dsimp only
    split
    · exact hrefused _
    rename_i hsize
    rcases uid_cases occupied uidAttempts [] hnext with
      ⟨after, asked, e, heq, hle, hlast⟩ | ⟨commandUid, asked, heq, hle, hlast⟩
    · rw [heq]
      exact .refused after e hle hlast
    · rw [heq]
      dsimp only
      rcases openGeneration_cases { r with nextUid := commandUid + 1 } a occupied asked
        ⟨Binding.from a, commandUid, a.generation.toNat, false, a.revision.toInt, .empty⟩
        (Nat.succ_le_succ hlast) with
        ⟨after, e, heq', hle', hlast'⟩ | ⟨secureUid, devUid, heq', hsecure, hdev, hlast'⟩
      · rw [heq']
        have hforward : commandUid + 1 ≤ after := hle'
        exact .refused after e (by omega) hlast'
      · rw [heq']
        have hforward : commandUid + 1 ≤ secureUid := hsecure
        exact .opened _ secureUid devUid ⟨hchecked, rfl,
          Or.inr ⟨hget, not_le.mp hsize, rfl, hle, hforward⟩, by omega, hdev, hlast'⟩

section

variable {uuidParses : String → Bool} {r : Registry} {a : Authority} {base : Allocation}
  {secureUid devUid : ℕ}

theorem validEntry_iff {id : String} {entry : Allocation} :
    validEntry uuidParses id entry = true ↔ EntryOk uuidParses id entry := by
  have hgroup : (entry.binding.group.any fun id => !prefixedHex "nyxg-" id) = false ↔
      entry.binding.group.all (prefixedHex "nyxg-") = true := by
    cases entry.binding.group <;> simp
  unfold validEntry
  simp only [Bool.not_eq_true', Bool.or_eq_false_iff, List.any_cons, List.any_nil, Bool.or_false,
    decide_eq_false_iff_not, Bool.not_eq_false', not_lt, decide_not, decide_eq_true_eq,
    Option.isSome_eq_false_iff, Option.isNone_iff_eq_none, hgroup]
  constructor
  · rintro ⟨⟨⟨⟨⟨⟨⟨hcontext, hrevision⟩, hagent, howner, hactor⟩, hgroup⟩, hzero⟩, hgeneration⟩, hsize⟩,
      hlast⟩
    exact ⟨hcontext, hrevision, hagent, howner, hactor, hgroup, hzero, hgeneration, hsize, hlast⟩
  · rintro ⟨hcontext, hrevision, hagent, howner, hactor, hgroup, hzero, hgeneration, hsize, hlast⟩
    exact ⟨⟨⟨⟨⟨⟨⟨hcontext, hrevision⟩, hagent, howner, hactor⟩, hgroup⟩, hzero⟩, hgeneration⟩, hsize⟩,
      hlast⟩

/-- The binding of an accepted authority passes the checks of the registry. -/
theorem binding_of_valid {runtime : String} {nowMs : ℤ}
    (h : validAuthority uuidParses a runtime nowMs = true) :
    uuidParses a.agentId = true ∧ uuidParses a.ownerId = true ∧ uuidParses a.actorId = true ∧
      a.groupId.all (prefixedHex "nyxg-") = true := by
  unfold validAuthority at h
  simp only [Bool.and_eq_true, List.all_cons, List.all_nil] at h
  obtain ⟨⟨⟨-, hids⟩, -⟩, hgroup⟩ := h
  exact ⟨hids.2.1, hids.2.2.1, hids.2.2.2.1, hgroup⟩

/-- Earlier generations are below the one that is opened. -/
theorem Opens.below (h : Opens uuidParses r a base secureUid devUid)
    (hinv : RegistryInv uuidParses r) : ∀ entry ∈ base.browsers.entries, entry.1 < a.generation.toNat := by
  intro entry hentry
  rcases h.base with ⟨hmem, hbefore, -⟩ | ⟨-, -, hnone, -⟩
  · exact (SortedMap.le_of_lastKey (hinv.entries _ _ hmem).last hentry).trans_lt hbefore
  · rw [hnone] at hentry
    cases hentry

theorem Opens.entryOk (h : Opens uuidParses r a base secureUid devUid)
    (hinv : RegistryInv uuidParses r)
    (hids : uuidParses a.agentId = true ∧ uuidParses a.ownerId = true ∧
      uuidParses a.actorId = true ∧ a.groupId.all (prefixedHex "nyxg-") = true) :
    EntryOk uuidParses a.contextId (base.opened a secureUid devUid) := by
  obtain ⟨hentries, hlast⟩ := SortedMap.insert_last (⟨secureUid, devUid⟩ : Browsers)
    (h.below hinv)
  have hbinding : (base.opened a secureUid devUid).binding = Binding.from a := h.binding
  have hsize : base.browsers.size < maxGenerations := by
    rcases h.base with ⟨-, -, hsize⟩ | ⟨-, -, hnone, -⟩
    · exact hsize
    · unfold SortedMap.size
      rw [hnone]
      decide
  refine ⟨h.checked.context, h.checked.revision, ?_, ?_, ?_, ?_, ?_, h.checked.generation, ?_, hlast⟩
  · rw [hbinding]
    exact hids.1
  · rw [hbinding]
    exact hids.2.1
  · rw [hbinding]
    exact hids.2.2.1
  · rw [hbinding]
    exact hids.2.2.2
  · show (base.browsers.insert a.generation.toNat ⟨secureUid, devUid⟩).get 0 = none
    rw [SortedMap.get_insert_ne h.checked.generation.symm]
    rcases h.base with ⟨hmem, -, -⟩ | ⟨-, -, hnone, -⟩
    · exact (hinv.entries _ _ hmem).noZero
    · unfold SortedMap.get
      rw [hnone]
      rfl
  · show (base.browsers.insert a.generation.toNat ⟨secureUid, devUid⟩).entries.length ≤ _
    rw [hentries, List.length_append]
    exact hsize

/-- The users that an opened generation adds. -/
inductive Fresh (r : Registry) (a : Authority) (base : Allocation) (secureUid devUid : ℕ) :
    Owner → ℕ → Prop where
  | command (h : r.nextUid ≤ base.commandUid ∧ base.commandUid < secureUid) :
      Fresh r a base secureUid devUid (.command a.contextId) base.commandUid
  | secure : Fresh r a base secureUid devUid (.secure a.contextId a.generation.toNat) secureUid
  | dev : Fresh r a base secureUid devUid (.dev a.contextId a.generation.toNat) devUid

theorem Opens.owned (h : Opens uuidParses r a base secureUid devUid) {owner : Owner} {user : ℕ}
    (hmem : (owner, user) ∈ (Registry.mk (devUid + 1) (r.contexts.insert a.contextId
      (base.opened a secureUid devUid))).owned) :
    (owner, user) ∈ r.owned ∨ Fresh r a base secureUid devUid owner user := by
  obtain ⟨id, entry, hentry, hmem⟩ := mem_owned_iff.mp hmem
  rcases SortedMap.mem_insert_iff.mp hentry with heq | ⟨-, hentry⟩
  · obtain ⟨rfl, rfl⟩ := Prod.mk.inj heq
    have hbefore (hold : (a.contextId, base) ∈ r.contexts.entries)
        (hmem : (owner, user) ∈ base.owned a.contextId) : (owner, user) ∈ r.owned :=
      mem_owned_iff.mpr ⟨_, base, hold, hmem⟩
    rcases List.mem_cons.mp hmem with heq | hmem
    · obtain ⟨rfl, rfl⟩ := Prod.mk.inj heq
      rcases h.base with ⟨hold, -, -⟩ | ⟨-, -, -, hfresh⟩
      · exact Or.inl (hbefore hold List.mem_cons_self)
      · exact Or.inr (.command hfresh)
    · obtain ⟨browser, hbrowser, hmem⟩ := List.mem_flatMap.mp hmem
      rcases SortedMap.mem_insert_iff.mp hbrowser with rfl | ⟨-, hbrowser⟩
      · rcases List.mem_cons.mp hmem with heq | hmem
        · obtain ⟨rfl, rfl⟩ := Prod.mk.inj heq
          exact Or.inr .secure
        · obtain ⟨rfl, rfl⟩ := Prod.mk.inj (List.mem_singleton.mp hmem)
          exact Or.inr .dev
      · rcases h.base with ⟨hold, -, -⟩ | ⟨-, -, hnone, -⟩
        · exact Or.inl (hbefore hold (List.mem_cons_of_mem _
            (List.mem_flatMap.mpr ⟨browser, hbrowser, hmem⟩)))
        · rw [hnone] at hbrowser
          cases hbrowser
  · exact Or.inl (mem_owned_iff.mpr ⟨id, entry, hentry, hmem⟩)

theorem Fresh.range {owner : Owner} {user : ℕ} (h : Fresh r a base secureUid devUid owner user)
    (hopens : Opens uuidParses r a base secureUid devUid) : r.nextUid ≤ user ∧ user < devUid + 1 := by
  have hsecure := hopens.secure
  have hdev := hopens.dev
  cases h with
  | command hfresh => omega
  | secure => omega
  | dev => omega

theorem Fresh.single {owner owner' : Owner} {user : ℕ}
    (h : Fresh r a base secureUid devUid owner user)
    (h' : Fresh r a base secureUid devUid owner' user)
    (hopens : Opens uuidParses r a base secureUid devUid) : owner = owner' := by
  have hsecure := hopens.secure
  have hdev := hopens.dev
  cases h with
  | command hfresh =>
    cases h' with
    | command _ => rfl
    | secure => omega
    | dev => omega
  | secure =>
    cases h' with
    | command hfresh => omega
    | secure => rfl
    | dev => omega
  | dev =>
    cases h' with
    | command hfresh => omega
    | secure => omega
    | dev => rfl

theorem Opens.inv (h : Opens uuidParses r a base secureUid devUid) (hinv : RegistryInv uuidParses r)
    (hids : uuidParses a.agentId = true ∧ uuidParses a.ownerId = true ∧
      uuidParses a.actorId = true ∧ a.groupId.all (prefixedHex "nyxg-") = true) :
    RegistryInv uuidParses ⟨devUid + 1, r.contexts.insert a.contextId
      (base.opened a secureUid devUid)⟩ := by
  have hnext := hinv.next
  have hsecure := h.secure
  have hdev := h.dev
  have hlast := h.last
  refine ⟨⟨?_, ?_⟩, ?_, fun id entry hentry => ?_, fun owner user hmem => ?_,
    fun owner owner' user hmem hmem' => ?_⟩
  · show firstUid ≤ devUid + 1
    omega
  · show devUid + 1 ≤ lastUid + 1
    omega
  · show (insertEntry a.contextId _ r.contexts.entries).length ≤ maxContexts
    rcases h.base with ⟨hold, -, -⟩ | ⟨-, hsize, -⟩
    · obtain ⟨front, back, hsplit, hinsert⟩ := SortedMap.insertEntry_of_mem
        (base.opened a secureUid devUid) r.contexts.sorted hold
      have hlength := hinv.size
      unfold SortedMap.size at hlength
      rw [hsplit] at hlength
      rw [hinsert]
      simpa only [List.length_append, List.length_cons] using hlength
    · have hgrow := SortedMap.length_insertEntry_le a.contextId (base.opened a secureUid devUid)
        r.contexts.entries
      unfold SortedMap.size at hsize
      omega
  · rcases SortedMap.mem_insert_iff.mp hentry with heq | ⟨-, hentry⟩
    · obtain ⟨rfl, rfl⟩ := Prod.mk.inj heq
      exact h.entryOk hinv hids
    · exact hinv.entries id entry hentry
  · show firstUid ≤ user ∧ user < devUid + 1
    rcases h.owned hmem with hold | hfresh
    · have hrange := hinv.range owner user hold
      omega
    · have hrange := hfresh.range h
      omega
  · rcases h.owned hmem with hold | hfresh
    · rcases h.owned hmem' with hold' | hfresh'
      · exact hinv.single owner owner' user hold hold'
      · have hrange := hinv.range owner user hold
        have hrange' := hfresh'.range h
        omega
    · rcases h.owned hmem' with hold' | hfresh'
      · have hrange := hinv.range owner' user hold'
        have hrange' := hfresh.range h
        omega
      · exact hfresh.single hfresh' h

theorem Opens.evolves (h : Opens uuidParses r a base secureUid devUid)
    (hinv : RegistryInv uuidParses r) : Evolves r ⟨devUid + 1, r.contexts.insert a.contextId
      (base.opened a secureUid devUid)⟩ where
  next := by
    have hsecure := h.secure
    have hdev := h.dev
    show r.nextUid ≤ devUid + 1
    omega
  contexts id old hold := by
    by_cases hid : id = a.contextId
    · subst hid
      refine ⟨base.opened a secureUid devUid, SortedMap.mem_insert_iff.mpr (Or.inl rfl), ?_⟩
      have hget := SortedMap.get_eq_some_iff.mpr hold
      rcases h.base with ⟨hbase, hbefore, -⟩ | ⟨hnone, -⟩
      · have hsame := SortedMap.get_eq_some_iff.mpr hbase
        rw [hget] at hsame
        obtain rfl := Option.some.inj hsame
        refine ⟨rfl, rfl, hbefore.le, fun heq => absurd heq.symm hbefore.ne, fun entry hentry => ?_⟩
        refine SortedMap.mem_insert_iff.mpr (Or.inr ⟨?_, hentry⟩)
        exact (h.below hinv entry hentry).ne
      · rw [hnone] at hget
        cases hget
    · exact ⟨old, SortedMap.mem_insert_iff.mpr (Or.inr ⟨hid, hold⟩), rfl, rfl, le_refl _,
        fun _ h => h, fun _ h => h⟩

theorem RegistryInv.skip (hinv : RegistryInv uuidParses r) {after : ℕ} (hle : r.nextUid ≤ after)
    (hlast : after ≤ lastUid + 1) : RegistryInv uuidParses { r with nextUid := after } where
  next := ⟨hinv.next.1.trans hle, hlast⟩
  size := hinv.size
  entries := hinv.entries
  range owner user hmem :=
    ⟨(hinv.range owner user hmem).1, (hinv.range owner user hmem).2.trans_le hle⟩
  single := hinv.single

end

end NyxId.MachineContexts
