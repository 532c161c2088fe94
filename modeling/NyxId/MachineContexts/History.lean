import NyxId.MachineContexts.Isolation
import Mathlib.Data.List.Pairwise
import Mathlib.Data.List.Nodup

/-!
Whole runs of the registry: at every point it validates, and nothing that was given,
bound, superseded or quarantined is given again.
-/

namespace NyxId.MachineContexts

open Interleave NyxId.MachineRequests MachineAuthority

section

variable {uuidParses : String → Bool} {r : Registry}

theorem quarantine_entries {agent : String} {beforeRevision : ℤ} {id : String} {entry : Allocation} :
    (id, entry) ∈ (r.quarantine agent beforeRevision).1.contexts.entries ↔
      ∃ old, (id, old) ∈ r.contexts.entries ∧ entry =
        if affected agent beforeRevision old then { old with quarantined := true } else old := by
  show (id, entry) ∈ r.contexts.entries.map _ ↔ _
  rw [List.mem_map]
  constructor
  · rintro ⟨⟨other, old⟩, hold, heq⟩
    obtain ⟨rfl, rfl⟩ := Prod.mk.inj heq
    exact ⟨old, hold, rfl⟩
  · rintro ⟨old, hold, rfl⟩
    exact ⟨(id, old), hold, rfl⟩

theorem quarantine_evolves (agent : String) (beforeRevision : ℤ) :
    Evolves r (r.quarantine agent beforeRevision).1 where
  next := le_refl _
  contexts id a ha := by
    refine ⟨_, quarantine_entries.mpr ⟨a, ha, rfl⟩, ?_⟩
    split
    · exact ⟨rfl, rfl, le_refl _, fun _ _ => rfl, fun _ h => h⟩
    · exact ⟨rfl, rfl, le_refl _, fun _ h => h, fun _ h => h⟩

theorem quarantine_owned {agent : String} {beforeRevision : ℤ} {owner : Owner} {user : ℕ}
    (h : (owner, user) ∈ (r.quarantine agent beforeRevision).1.owned) : (owner, user) ∈ r.owned := by
  obtain ⟨id, entry, hentry, hmem⟩ := mem_owned_iff.mp h
  obtain ⟨old, hold, rfl⟩ := quarantine_entries.mp hentry
  refine mem_owned_iff.mpr ⟨id, old, hold, ?_⟩
  split at hmem
  · exact hmem
  · exact hmem

theorem quarantine_inv (hinv : RegistryInv uuidParses r) (agent : String) (beforeRevision : ℤ) :
    RegistryInv uuidParses (r.quarantine agent beforeRevision).1 where
  next := hinv.next
  size := by
    show (r.contexts.entries.map _).length ≤ maxContexts
    rw [List.length_map]
    exact hinv.size
  entries id entry hentry := by
    obtain ⟨old, hold, rfl⟩ := quarantine_entries.mp hentry
    have hok := hinv.entries id old hold
    split
    · exact ⟨hok.context, hok.revision, hok.agent, hok.owner, hok.actor, hok.group, hok.noZero,
        hok.generation, hok.size, hok.last⟩
    · exact hok
  range owner user hmem := hinv.range owner user (quarantine_owned hmem)
  single owner owner' user hmem hmem' :=
    hinv.single owner owner' user (quarantine_owned hmem) (quarantine_owned hmem')

theorem inv_new (uuidParses : String → Bool) : RegistryInv uuidParses .new where
  next := by decide
  size := by decide
  entries id entry hentry := by cases hentry
  range owner user hmem := by cases hmem
  single owner owner' user hmem := by cases hmem

theorem owned_uids (entry : Allocation) (id : String) :
    (entry.owned id).map Prod.snd = entry.uids := by
  unfold Allocation.owned Allocation.uids SortedMap.values
  rw [List.map_cons, List.map_flatMap, List.flatMap_map]
  rfl

def Owner.context : Owner → String
  | .command context => context
  | .secure context _ => context
  | .dev context _ => context

/-- Every owner is listed once. -/
theorem nodup_owners (r : Registry) : (r.owned.map Prod.fst).Nodup := by
  unfold Registry.owned
  rw [List.map_flatMap, List.nodup_flatMap]
  have hcontext (id : String) (entry : Allocation) :
      ∀ owner ∈ (entry.owned id).map Prod.fst, owner.context = id := by
    intro owner howner
    obtain ⟨⟨_, user⟩, hmem, rfl⟩ := List.mem_map.mp howner
    rcases List.mem_cons.mp hmem with heq | hmem
    · rw [(Prod.mk.inj heq).1]
      rfl
    · obtain ⟨browser, -, hmem⟩ := List.mem_flatMap.mp hmem
      rcases List.mem_cons.mp hmem with heq | hmem
      · rw [(Prod.mk.inj heq).1]
        rfl
      · rw [(Prod.mk.inj (List.mem_singleton.mp hmem)).1]
        rfl
  constructor
  · rintro ⟨id, entry⟩ -
    unfold Allocation.owned
    rw [List.map_cons, List.nodup_cons]
    constructor
    · intro hmem
      obtain ⟨⟨_, user⟩, hmem, heq⟩ := List.mem_map.mp hmem
      obtain ⟨browser, -, hmem⟩ := List.mem_flatMap.mp hmem
      rcases List.mem_cons.mp hmem with hsecure | hmem
      · rw [hsecure] at heq
        cases heq
      · rw [List.mem_singleton.mp hmem] at heq
        cases heq
    · rw [List.map_flatMap, List.nodup_flatMap]
      constructor
      · rintro browser -
        show [Owner.secure id browser.1, Owner.dev id browser.1].Nodup
        simp
      · refine entry.browsers.sorted.imp fun hlt => ?_
        rename_i b b'
        show List.Disjoint [Owner.secure id b.1, Owner.dev id b.1]
          [Owner.secure id b'.1, Owner.dev id b'.1]
        simp only [List.disjoint_cons_left, List.mem_cons, List.not_mem_nil, or_false, not_or,
          Owner.secure.injEq, Owner.dev.injEq, reduceCtorEq, true_and, not_false_eq_true, and_true,
          List.disjoint_nil_left]
        exact ⟨hlt.ne, hlt.ne⟩
  · refine r.contexts.sorted.imp fun hlt => ?_
    rename_i e e'
    intro owner howner howner'
    have hsame := hcontext e.1 e.2 owner howner
    rw [hcontext e'.1 e'.2 owner howner'] at hsame
    exact hlt.ne hsame.symm

/-- No user is listed twice. -/
theorem nodup_users (hinv : RegistryInv uuidParses r) : (r.owned.map Prod.snd).Nodup := by
  refine List.Nodup.map_on ?_ (nodup_owners r).of_map
  rintro ⟨owner, user⟩ hmem ⟨owner', user'⟩ hmem' heq
  have heq : user = user' := heq
  subst heq
  rw [hinv.single owner owner' user hmem hmem']

theorem seeUids_eq {next : ℕ} {seen users : List ℕ} (hnodup : users.Nodup)
    (hnew : ∀ user ∈ users, user ∉ seen) (hrange : ∀ user ∈ users, firstUid ≤ user ∧ user < next) :
    ∃ seen', seeUids next seen users = some seen' ∧ ∀ user, user ∈ seen' → user ∈ seen ∨ user ∈ users := by
  induction users generalizing seen with
  | nil => exact ⟨seen, rfl, fun _ h => Or.inl h⟩
  | cons user rest ih =>
    obtain ⟨hfresh, hrest⟩ := List.nodup_cons.mp hnodup
    obtain ⟨hlow, hhigh⟩ := hrange user List.mem_cons_self
    have hunseen : seen.contains user = false := by
      rw [Bool.eq_false_iff]
      intro hmem
      exact hnew user List.mem_cons_self (List.contains_iff_mem.mp hmem)
    obtain ⟨seen', hseen, hsub⟩ := @ih (user :: seen) hrest
      (fun other hother hmem => by
        rcases List.mem_cons.mp hmem with rfl | hmem
        · exact hfresh hother
        · exact hnew other (List.mem_cons_of_mem _ hother) hmem)
      (fun other hother => hrange other (List.mem_cons_of_mem _ hother))
    refine ⟨seen', ?_, fun other hother => ?_⟩
    · unfold seeUids
      rw [hunseen, decide_eq_true hlow, decide_eq_true hhigh]
      exact hseen
    · rcases hsub other hother with hmem | hmem
      · rcases List.mem_cons.mp hmem with rfl | hmem
        · exact Or.inr List.mem_cons_self
        · exact Or.inl hmem
      · exact Or.inr (List.mem_cons_of_mem _ hmem)

theorem validEntries_ok {next : ℕ} {seen : List ℕ} {entries : List (String × Allocation)}
    (hentries : ∀ id entry, (id, entry) ∈ entries → EntryOk uuidParses id entry)
    (hnodup : (entries.flatMap fun entry => entry.2.uids).Nodup)
    (hnew : ∀ user ∈ entries.flatMap fun entry => entry.2.uids, user ∉ seen)
    (hrange : ∀ user ∈ entries.flatMap fun entry => entry.2.uids, firstUid ≤ user ∧ user < next) :
    validEntries uuidParses next seen entries = .ok () := by
  induction entries generalizing seen with
  | nil => rfl
  | cons head rest ih =>
    obtain ⟨id, entry⟩ := head
    rw [List.flatMap_cons] at hnodup hnew hrange
    obtain ⟨hhead, hrest, hdisjoint⟩ := List.nodup_append.mp hnodup
    obtain ⟨seen', hseen, hsub⟩ := seeUids_eq hhead
      (fun user huser => hnew user (List.mem_append_left _ huser))
      (fun user huser => hrange user (List.mem_append_left _ huser))
    unfold validEntries
    rw [validEntry_iff.mpr (hentries id entry List.mem_cons_self), hseen]
    refine ih (fun id entry hentry => hentries id entry (List.mem_cons_of_mem _ hentry)) hrest
      (fun user huser hmem => ?_) fun user huser => hrange user (List.mem_append_right _ huser)
    rcases hsub user hmem with hmem | hmem
    · exact hnew user (List.mem_append_right _ huser) hmem
    · exact hdisjoint user hmem user huser rfl

theorem validate_ok (hinv : RegistryInv uuidParses r) : r.validate uuidParses = .ok () := by
  have husers : (r.contexts.entries.flatMap fun entry => entry.2.uids) = r.owned.map Prod.snd := by
    unfold Registry.owned
    rw [List.map_flatMap]
    simp only [owned_uids]
  unfold Registry.validate
  rw [if_neg]
  · refine validEntries_ok hinv.entries (by rw [husers]; exact nodup_users hinv)
      (fun _ _ => List.not_mem_nil) fun user huser => ?_
    rw [husers] at huser
    obtain ⟨⟨owner, _⟩, hmem, rfl⟩ := List.mem_map.mp huser
    exact hinv.range owner _ hmem
  · have hsize := hinv.size
    have hnext := hinv.next
    simp only [Bool.or_eq_true, Bool.not_eq_true', Bool.and_eq_false_iff, decide_eq_true_eq,
      decide_eq_false_iff_not]
    omega

end

/-- Calls carry authorities that were accepted. -/
def Call.Valid (uuidParses : String → Bool) : Call → Prop
  | .allocate a _ => ∃ runtime nowMs, validAuthority uuidParses a runtime nowMs = true
  | .quarantine _ _ => True
  | .reload => True

/-- The users that an event gives out, with their owners. -/
def Event.given (e : Event) : List (Owner × ℕ) :=
  match e.call, e.result with
  | .allocate a _, .ok (some entry) => entry.owned a.contextId
  | _, _ => []

/-- The generation was superseded or quarantined. -/
def Retired (r : Registry) (id : String) (generation : ℕ) : Prop :=
  ∃ a, r.contexts.get id = some a ∧
    (generation < a.generation ∨ (a.generation = generation ∧ a.quarantined = true))

/-- What an event may not do to what earlier ones established. -/
structure Respects (earlier later : Event) : Prop where
  bindings : ∀ id a, earlier.registry.contexts.get id = some a → ∃ b,
    later.registry.contexts.get id = some b ∧ b.binding = a.binding ∧ a.generation ≤ b.generation
  retired : ∀ a occupied entry, later.call = .allocate a occupied → later.result = .ok (some entry) →
    ∀ generation, Retired earlier.registry a.contextId generation → entry.generation ≠ generation

section

variable {uuidParses : String → Bool} {r : Registry}

theorem Evolves.retired {s : Registry} (h : Evolves r s) {id : String} {generation : ℕ}
    (hretired : Retired r id generation) : Retired s id generation := by
  obtain ⟨a, ha, hwhy⟩ := hretired
  obtain ⟨b, hb, -, -, hle, hkept, -⟩ := h.contexts id a (SortedMap.get_eq_some_iff.mp ha)
  refine ⟨b, SortedMap.get_eq_some_iff.mpr hb, ?_⟩
  rcases hwhy with hlt | ⟨heq, hset⟩
  · exact Or.inl (by omega)
  · by_cases hsame : b.generation = a.generation
    · exact Or.inr ⟨hsame.trans heq, hkept hsame hset⟩
    · exact Or.inl (by omega)

/-- What one call does: the invariant and the past stay, whatever is given is in the
registry, and a retired generation is not returned. -/
structure StepOk (uuidParses : String → Bool) (r : Registry) (e : Event) : Prop where
  inv : RegistryInv uuidParses e.registry
  evolves : Evolves r e.registry
  given : ∀ owned ∈ e.given, owned ∈ e.registry.owned
  retired : ∀ a occupied entry, e.call = .allocate a occupied → e.result = .ok (some entry) →
    ∀ generation, Retired r a.contextId generation → entry.generation ≠ generation

theorem apply_ok (hinv : RegistryInv uuidParses r) {call : Call} (hvalid : call.Valid uuidParses) :
    StepOk uuidParses r (r.apply uuidParses call) := by
  cases call with
  | quarantine agent beforeRevision =>
    refine ⟨quarantine_inv hinv agent beforeRevision, quarantine_evolves agent beforeRevision,
      fun _ hmem => (nomatch hmem), fun _ _ _ hcall => (nomatch hcall)⟩
  | reload =>
    have hreload : r.apply uuidParses .reload = ⟨.reload, .ok none, r⟩ := by
      show Event.mk .reload (r.reload uuidParses).2 (r.reload uuidParses).1 = _
      unfold Registry.reload
      rw [validate_ok hinv]
    rw [hreload]
    exact ⟨hinv, Evolves.refl r, fun _ hmem => (nomatch hmem), fun _ _ _ hcall => (nomatch hcall)⟩
  | allocate a occupied =>
    obtain ⟨runtime, nowMs, hauthority⟩ := hvalid
    have hids := binding_of_valid hauthority
    have happly : r.apply uuidParses (.allocate a occupied) = ⟨.allocate a occupied,
        (r.allocate uuidParses a occupied).2.map some, (r.allocate uuidParses a occupied).1⟩ := rfl
    have hcases := @allocate_cases uuidParses r a occupied hinv.next.2
    rw [happly]
    generalize r.allocate uuidParses a occupied = outcome at hcases
    cases hcases with
    | refused after e hle hlast =>
      exact ⟨hinv.skip hle hlast, ⟨hle, (Evolves.refl r).contexts⟩, fun _ hmem => (nomatch hmem),
        fun _ _ _ _ hresult => (nomatch hresult)⟩
    | current old hold hgeneration hlive =>
      refine ⟨hinv, Evolves.refl r, fun owned hmem => mem_owned_iff.mpr ⟨_, old, hold, hmem⟩, ?_⟩
      rintro b _ entry hcall hresult generation ⟨found, hfound, hwhy⟩ heq
      cases hcall
      cases hresult
      rw [SortedMap.get_eq_some_iff.mpr hold] at hfound
      obtain rfl := Option.some.inj hfound
      rcases hwhy with hlt | ⟨-, hset⟩
      · omega
      · rw [hlive] at hset
        cases hset
    | opened base secureUid devUid hopens =>
      refine ⟨hopens.inv hinv hids, hopens.evolves hinv, fun owned hmem => mem_owned_iff.mpr
        ⟨_, _, SortedMap.mem_insert_iff.mpr (Or.inl rfl), hmem⟩, ?_⟩
      rintro b _ entry hcall hresult generation ⟨found, hfound, hwhy⟩ heq
      cases hcall
      cases hresult
      have hgeneration : a.generation.toNat = generation := heq
      rcases hopens.base with ⟨hbase, hbefore, -⟩ | ⟨hnone, -⟩
      · rw [SortedMap.get_eq_some_iff.mpr hbase] at hfound
        obtain rfl := Option.some.inj hfound
        omega
      · rw [hnone] at hfound
        cases hfound

/-- Every event of a run is a step from a registry that grew out of the first one. -/
theorem history_steps {calls : List Call} (hinv : RegistryInv uuidParses r)
    (hvalid : ∀ call ∈ calls, call.Valid uuidParses) :
    ∀ e ∈ history uuidParses r calls, ∃ before, Evolves r before ∧ RegistryInv uuidParses before ∧
      StepOk uuidParses before e := by
  induction calls generalizing r with
  | nil => exact fun _ he => (nomatch he)
  | cons call rest ih =>
    have hstep := apply_ok hinv (hvalid call List.mem_cons_self)
    intro e he
    rcases List.mem_cons.mp he with rfl | he
    · exact ⟨r, Evolves.refl r, hinv, hstep⟩
    · obtain ⟨before, hevolves, hbefore, hok⟩ := ih hstep.inv
        (fun other hother => hvalid other (List.mem_cons_of_mem _ hother)) e he
      exact ⟨before, hstep.evolves.trans hevolves, hbefore, hok⟩

theorem history_respects {calls : List Call} (hinv : RegistryInv uuidParses r)
    (hvalid : ∀ call ∈ calls, call.Valid uuidParses) :
    (history uuidParses r calls).Pairwise fun earlier later => Respects earlier later ∧
      Evolves earlier.registry later.registry := by
  induction calls generalizing r with
  | nil => exact List.Pairwise.nil
  | cons call rest ih =>
    have hstep := apply_ok hinv (hvalid call List.mem_cons_self)
    have hrest := fun other hother => hvalid other (List.mem_cons_of_mem call hother)
    refine List.pairwise_cons.mpr ⟨fun later hlater => ?_, ih hstep.inv hrest⟩
    obtain ⟨before, hevolves, -, hok⟩ := history_steps hstep.inv hrest later hlater
    have hwhole := hevolves.trans hok.evolves
    refine ⟨⟨fun id a ha => ?_, fun a occupied entry hcall hresult generation hretired => ?_⟩, hwhole⟩
    · obtain ⟨b, hb, hbinding, -, hle, -, -⟩ :=
        hwhole.contexts id a (SortedMap.get_eq_some_iff.mp ha)
      exact ⟨b, SortedMap.get_eq_some_iff.mpr hb, hbinding, hle⟩
    · exact hok.retired a occupied entry hcall hresult generation (hevolves.retired hretired)

/-- In a list whose later registries keep what earlier ones own, two gifts meet in one
registry. -/
theorem single_of_pairwise {events : List Event}
    (hsteps : ∀ e ∈ events, RegistryInv uuidParses e.registry ∧ ∀ owned ∈ e.given, owned ∈ e.registry.owned)
    (hgrow : events.Pairwise fun earlier later => Evolves earlier.registry later.registry) :
    ∀ e ∈ events, ∀ e' ∈ events, ∀ owner owner' user, (owner, user) ∈ e.given →
      (owner', user) ∈ e'.given → owner = owner' := by
  have hmeet (e e' : Event) (he' : e' ∈ events) (he : e ∈ events)
      (hevolves : Evolves e.registry e'.registry) (owner owner' : Owner) (user : ℕ)
      (hmem : (owner, user) ∈ e.given) (hmem' : (owner', user) ∈ e'.given) : owner = owner' :=
    (hsteps e' he').1.single owner owner' user (hevolves.owned ((hsteps e he).2 _ hmem))
      ((hsteps e' he').2 _ hmem')
  intro e he e' he' owner owner' user hmem hmem'
  obtain ⟨i, hi, rfl⟩ := List.getElem_of_mem he
  obtain ⟨j, hj, rfl⟩ := List.getElem_of_mem he'
  rcases Nat.lt_trichotomy i j with hlt | rfl | hlt
  · exact hmeet _ _ he' he (List.pairwise_iff_getElem.mp hgrow i j hi hj hlt) owner owner' user hmem hmem'
  · exact hmeet _ _ he' he (Evolves.refl _) owner owner' user hmem hmem'
  · exact (hmeet _ _ he he' (List.pairwise_iff_getElem.mp hgrow j i hj hi hlt) owner' owner user hmem'
      hmem).symm

end

/-- Over any run with accepted authorities the registry always validates, no user has two
owners, a context keeps its binding and its generation never decreases, and a retired
generation is never returned again. -/
theorem contexts_isolated (uuidParses : String → Bool) (calls : List Call)
    (hvalid : ∀ call ∈ calls, call.Valid uuidParses) :
    (∀ e ∈ history uuidParses .new calls, e.registry.validate uuidParses = .ok ()) ∧
      (∀ e ∈ history uuidParses .new calls, ∀ e' ∈ history uuidParses .new calls,
        ∀ owner owner' user, (owner, user) ∈ e.given → (owner', user) ∈ e'.given → owner = owner') ∧
      (history uuidParses .new calls).Pairwise Respects := by
  have hsteps := history_steps (inv_new uuidParses) hvalid
  have hpairs := history_respects (inv_new uuidParses) hvalid
  refine ⟨fun e he => ?_, @single_of_pairwise uuidParses _ (fun e he => ?_)
    (hpairs.imp fun h => h.2), hpairs.imp fun h => h.1⟩
  · obtain ⟨_, -, -, hok⟩ := hsteps e he
    exact validate_ok hok.inv
  · obtain ⟨_, -, -, hok⟩ := hsteps e he
    exact ⟨hok.inv, hok.given⟩

section

def sampleId : String := "00000000-0000-4000-8000-000000000001"

def sampleAuthority (generation : UInt64) : Authority where
  requireV2 := true
  contextId := sampleId
  generation := generation
  mode := separatedMode
  agentId := sampleId
  ownerId := sampleId
  actorId := sampleId
  groupId := none
  runtimeId := sampleId
  conversationId := sampleId
  turnId := sampleId
  leaseId := sampleId
  revision := 1
  expiresAtMs := 1000
  capabilities := ⟨true, false, false, false, false⟩

/-- Two generations of one context. -/
def sampleCalls : List Call :=
  [.allocate (sampleAuthority 1) fun _ => false, .allocate (sampleAuthority 2) fun _ => false]

def sampleParses (text : String) : Bool := text = sampleId

theorem valid_sampleCalls : ∀ call ∈ sampleCalls, call.Valid sampleParses := by
  intro call hcall
  rcases List.mem_cons.mp hcall with rfl | hcall
  · exact ⟨sampleId, 0, by decide⟩
  · obtain rfl := List.mem_singleton.mp hcall
    exact ⟨sampleId, 0, by decide⟩

theorem sample_isolated :
    (∀ e ∈ history sampleParses .new sampleCalls, e.registry.validate sampleParses = .ok ()) ∧
      (∀ e ∈ history sampleParses .new sampleCalls, ∀ e' ∈ history sampleParses .new sampleCalls,
        ∀ owner owner' user, (owner, user) ∈ e.given → (owner', user) ∈ e'.given → owner = owner') ∧
      (history sampleParses .new sampleCalls).Pairwise Respects :=
  contexts_isolated sampleParses sampleCalls valid_sampleCalls

inductive Role
  | command
  | secure
  | dev
deriving DecidableEq

/-- The users of the generation that an event returns, for each role. -/
def Event.perGeneration (e : Event) : List ((String × ℕ × Role) × ℕ) :=
  match e.call, e.result with
  | .allocate a _, .ok (some entry) =>
    ((a.contextId, entry.generation, .command), entry.commandUid) ::
      match entry.browsers.get entry.generation with
      | some users => [((a.contextId, entry.generation, .secure), users.secureUid),
          ((a.contextId, entry.generation, .dev), users.devUid)]
      | none => []
  | _, _ => []

/-- Both generations of the context run their commands as one user. -/
theorem command_user_kept : ¬ ∀ (uuidParses : String → Bool) (calls : List Call),
    (∀ call ∈ calls, call.Valid uuidParses) →
      ∀ e ∈ history uuidParses .new calls, ∀ e' ∈ history uuidParses .new calls,
        ∀ triple triple' user, (triple, user) ∈ e.perGeneration → (triple', user) ∈ e'.perGeneration →
          triple = triple' := by
  intro h
  have hfirst : ((history sampleParses .new sampleCalls).map Event.perGeneration) =
      [[((sampleId, 1, .command), 20000), ((sampleId, 1, .secure), 20001),
          ((sampleId, 1, .dev), 20002)],
        [((sampleId, 2, .command), 20000), ((sampleId, 2, .secure), 20003),
          ((sampleId, 2, .dev), 20004)]] := by
    decide
  obtain ⟨e, he, hgiven⟩ := List.mem_map.mp (hfirst ▸ List.mem_cons_self)
  obtain ⟨e', he', hgiven'⟩ := List.mem_map.mp
    (hfirst ▸ List.mem_cons_of_mem _ List.mem_cons_self)
  have hsame := h sampleParses sampleCalls valid_sampleCalls e he e' he' (sampleId, 1, .command)
    (sampleId, 2, .command) 20000 (hgiven ▸ List.mem_cons_self) (hgiven' ▸ List.mem_cons_self)
  cases hsame

end

end NyxId.MachineContexts
