import NyxId.OperationScope.Rules
import NyxId.OperationScope.Forwarding

/-!
Saved operation scopes of a specialist: which scopes apply to a call, the authorization
of the call with its forwarded form, the limits on its inputs, and the comparison that
lets a narrower scope be saved without a review. The query and body languages of input
limits and their evaluators are parameters.
-/

namespace NyxId.OperationScope

section

/-- Rules on one string value. -/
inductive ValueRule where
  | exact (value : String)
  | oneOf (values : List String)
  | maxInteger (value : ℕ)
  | maxLength (value : ℕ)
  deriving DecidableEq

inductive InputError where
  | policy (reason : String)
  | denied (reason : String)
  deriving DecidableEq

def parseU64 (text : String) : Option ℕ :=
  let digits := match text.toList with
    | '+' :: rest => rest
    | rest => rest
  if digits.isEmpty ∨ !digits.all Char.isDigit then none
  else
    let value := digits.foldl (fun n c => 10 * n + (c.toNat - 48)) 0
    if value < 2 ^ 64 then some value else none

def matchesValue (rule : ValueRule) (value : String) : Bool :=
  match rule with
  | .exact expected => value = expected
  | .oneOf values => values.contains value
  | .maxInteger maximum => (parseU64 value).any (· ≤ maximum)
  | .maxLength maximum => value.toList.length ≤ maximum

/-- The evaluators of the query and body languages. -/
structure Checks (Q B : Type) where
  query : Q → Option String → Except InputError Unit
  body : B → List UInt8 → Option String → Except InputError Unit

/-- No query or body language. -/
def noChecks : Checks Unit Unit := ⟨fun _ _ => .ok (), fun _ _ _ => .ok ()⟩

structure InputRules (Q B : Type) where
  path : List (String × ValueRule)
  query : Option Q
  body : Option B
  deriving DecidableEq

inductive EndpointRisk where
  | read
  | write
  deriving DecidableEq

structure ScopedOperation (Q B : Type) where
  endpointId : Option String
  rule : ProxyOperationRule
  risk : Option EndpointRisk
  destructive : Bool
  changesExisting : Option Bool
  inputs : Option (InputRules Q B)
  deriving DecidableEq

structure AgentOperationScope (Q B : Type) where
  revision : ℤ
  catalogServiceId : Option String
  operations : List (ScopedOperation Q B)

/-- Saved scopes under the identifier of their service, in its order. -/
abbrev OperationScopes (Q B : Type) := List (String × AgentOperationScope Q B)

/-- A call as it reaches the downstream route. -/
structure Call where
  serviceId : String
  catalogId : Option String
  endpointId : Option String
  method : String
  path : CanonicalPath
  methodOverride : Bool
  websocket : Bool
  query : Option String
  body : List UInt8
  contentType : Option String

/-- Why a call was refused. -/
inductive Refusal (Q B : Type) where
  | scope (scope : AgentOperationScope Q B)
  | inputs (error : Option InputError)

variable {Q B : Type} (U : CharClass) (C : Checks Q B)

def checkPathRule (arguments : List (String × String)) (rule : String × ValueRule) :
    Except InputError Unit :=
  match arguments.lookup rule.1 with
  | none => .error (.denied "path variable is missing")
  | some value =>
    if matchesValue rule.2 value then .ok ()
    else .error (.denied "path variable violates its rule")

/-- Bound path variables, the raw query and the body against the limits. -/
def InputRules.check (rules : InputRules Q B) (arguments : List (String × String))
    (query : Option String) (body : List UInt8) (contentType : Option String) :
    Except InputError Unit := do
  rules.path.forM (checkPathRule arguments)
  match rules.query with
  | some queryRules => C.query queryRules query
  | none => .ok ()
  match rules.body with
  | some shape => C.body shape body contentType
  | none => .ok ()

/-- No authority is inferred from aliases when an exact instance is resolved. -/
def applicable (scopes : OperationScopes Q B) (serviceId : String) (catalogId : Option String) :
    List (AgentOperationScope Q B) :=
  scopes.filterMap fun (id, scope) =>
    if id = serviceId ∨ catalogId = some id ∨
        (catalogId.isNone ∧ scope.catalogServiceId = some serviceId) then
      some scope
    else none

/-- The operation is the selected endpoint's, if any, and its rule matches. -/
def ScopedOperation.covers (operation : ScopedOperation Q B) (call : Call) : Bool :=
  (call.endpointId.all fun id => operation.endpointId.all fun selected => selected = id) &&
    ruleMatches U operation.rule call.method call.path

/-- The first operation of a scope that covers a call gives its forwarded form. -/
def authorizeScope (call : Call) (scope : AgentOperationScope Q B) :
    Except (Refusal Q B) (Option String) :=
  if call.methodOverride || call.websocket then .error (.scope scope)
  else
    match scope.operations.find? (·.covers U call) with
    | none => .error (.scope scope)
    | some operation => .ok (ruleForwardingPath U operation.rule call.method call.path)

/-- The form in which a call is forwarded is that of the last scope. -/
def authorize (scopes : OperationScopes Q B) (call : Call) :
    Except (Refusal Q B) (Option String) :=
  (applicable scopes call.serviceId call.catalogId).foldlM
    (fun _ scope => authorizeScope U call scope) none

/-- What the limits of a matched operation say about the call. -/
def ScopedOperation.checkInputs (operation : ScopedOperation Q B) (call : Call) :
    Except InputError Unit :=
  match operation.inputs with
  | none => .ok ()
  | some inputs => inputs.check C ((matchPathArguments U operation.rule call.path).getD [])
      call.query call.body call.contentType

def ScopedOperation.accepts (operation : ScopedOperation Q B) (call : Call) : Bool :=
  match operation.checkInputs U C call with
  | .ok () => true
  | .error _ => false

/-- A call passes a scope when any operation that it matches accepts its inputs. -/
def checkScopeInputs (scope : AgentOperationScope Q B) (call : Call) :
    Except (Refusal Q B) Unit :=
  let matched := scope.operations.filter (·.covers U call)
  if matched.any (·.accepts U C call) then .ok ()
  else .error (.inputs (matched.filterMap fun operation =>
    match operation.checkInputs U C call with
    | .ok () => none
    | .error e => some e).getLast?)

def checkInputs (scopes : OperationScopes Q B) (call : Call) : Except (Refusal Q B) Unit :=
  (applicable scopes call.serviceId call.catalogId).forM fun scope =>
    checkScopeInputs U C scope call

/-- The call is authorized and its inputs pass. -/
def LetThrough (scopes : OperationScopes Q B) (call : Call) : Prop :=
  (∃ path, authorize U scopes call = .ok path) ∧ checkInputs U C scopes call = .ok ()

section

variable {U C} {scopes : OperationScopes Q B} {call : Call}

/-- When every step succeeds without looking back, the last one gives the result. -/
theorem foldlM_eq_ok {ε α β : Type} {f : α → Except ε β} {items : List α} {start result : β} :
    items.foldlM (fun _ a => f a) start = .ok result ↔
      (∀ a ∈ items, ∃ b, f a = .ok b) ∧
        (items = [] ∧ result = start ∨ ∃ last, items.getLast? = some last ∧ f last = .ok result) := by
  induction items generalizing start with
  | nil =>
    constructor
    · intro h
      cases h
      exact ⟨fun a h => (nomatch h), Or.inl ⟨rfl, rfl⟩⟩
    · rintro ⟨-, ⟨-, rfl⟩ | ⟨last, h, -⟩⟩
      · rfl
      · cases h
  | cons a items ih =>
    rw [List.foldlM_cons, List.getLast?_cons]
    constructor
    · intro h
      obtain ⟨b, hb, hrest⟩ := bind_eq_ok.mp h
      obtain ⟨hall, hlast⟩ := ih.mp hrest
      refine ⟨List.forall_mem_cons.mpr ⟨⟨b, hb⟩, hall⟩, Or.inr ?_⟩
      rcases hlast with ⟨rfl, rfl⟩ | ⟨last, hlast, hresult⟩
      · exact ⟨a, rfl, hb⟩
      · exact ⟨last, by rw [hlast]; rfl, hresult⟩
    · rintro ⟨hall, ⟨h, -⟩ | ⟨last, hlast, hresult⟩⟩
      · cases h
      · obtain ⟨⟨b, hb⟩, hall⟩ := List.forall_mem_cons.mp hall
        rw [hb]
        refine ih.mpr ⟨hall, ?_⟩
        cases hitems : items.getLast? with
        | none =>
          rw [hitems] at hlast
          cases hlast
          rw [Option.getD_none, hb] at hresult
          cases hresult
          exact Or.inl ⟨List.getLast?_eq_none_iff.mp hitems, rfl⟩
        | some other =>
          rw [hitems] at hlast
          cases hlast
          exact Or.inr ⟨other, rfl, hresult⟩

theorem authorizeScope_eq_ok {scope : AgentOperationScope Q B} {path : Option String} :
    authorizeScope U call scope = .ok path ↔
      (call.methodOverride = false ∧ call.websocket = false) ∧
        ∃ first, scope.operations.find? (·.covers U call) = some first ∧
          path = ruleForwardingPath U first.rule call.method call.path := by
  unfold authorizeScope
  cases call.methodOverride <;> cases call.websocket
  · cases hfind : scope.operations.find? (·.covers U call) with
    | none => simp
    | some first => simp [eq_comm]
  all_goals simp

theorem checkScopeInputs_eq_ok {scope : AgentOperationScope Q B} :
    checkScopeInputs U C scope call = .ok () ↔
      ∃ operation ∈ scope.operations, operation.covers U call = true ∧
        operation.accepts U C call = true := by
  unfold checkScopeInputs
  simp only [List.any_filter, List.any_eq_true, Bool.and_eq_true]
  constructor
  · intro h
    split at h
    · assumption
    · cases h
  · intro h
    rw [if_pos h]

theorem checkInputs_eq_ok :
    checkInputs U C scopes call = .ok () ↔
      ∀ scope ∈ applicable scopes call.serviceId call.catalogId,
        ∃ operation ∈ scope.operations, operation.covers U call = true ∧
          operation.accepts U C call = true := by
  unfold checkInputs
  induction applicable scopes call.serviceId call.catalogId with
  | nil => exact ⟨fun _ _ h => (nomatch h), fun _ => rfl⟩
  | cons scope rest ih =>
    rw [List.forall_mem_cons, ← checkScopeInputs_eq_ok, ← ih]
    constructor
    · intro h
      obtain ⟨_, hscope, hrest⟩ := bind_eq_ok.mp h
      exact ⟨hscope, hrest⟩
    · rintro ⟨hscope, hrest⟩
      show (checkScopeInputs U C scope call >>= fun _ =>
        rest.forM fun scope => checkScopeInputs U C scope call) = .ok ()
      rw [hscope]
      exact hrest

/-- A call passes when every scope that applies has an operation for it. -/
theorem letThrough_iff : LetThrough U C scopes call ↔
    ∀ scope ∈ applicable scopes call.serviceId call.catalogId,
      (call.methodOverride = false ∧ call.websocket = false) ∧
        ∃ operation ∈ scope.operations, operation.covers U call = true ∧
          operation.accepts U C call = true := by
  unfold LetThrough
  rw [checkInputs_eq_ok]
  constructor
  · rintro ⟨⟨path, hpath⟩, hinputs⟩ scope hscope
    obtain ⟨q, hq⟩ := (foldlM_eq_ok.mp hpath).1 scope hscope
    exact ⟨(authorizeScope_eq_ok.mp hq).1, hinputs scope hscope⟩
  · intro h
    refine ⟨?_, fun scope hscope => (h scope hscope).2⟩
    have hall : ∀ scope ∈ applicable scopes call.serviceId call.catalogId,
        ∃ path, authorizeScope U call scope = .ok path := by
      intro scope hscope
      obtain ⟨hplain, operation, hmem, hcovers, -⟩ := h scope hscope
      obtain ⟨first, hfirst⟩ := Option.isSome_iff_exists.mp
        (List.find?_isSome (p := fun operation => operation.covers U call).mpr ⟨operation, hmem, hcovers⟩)
      exact ⟨_, authorizeScope_eq_ok.mpr ⟨hplain, first, hfirst, rfl⟩⟩
    cases hlast : (applicable scopes call.serviceId call.catalogId).getLast? with
    | none => exact ⟨none, foldlM_eq_ok.mpr ⟨hall, Or.inl ⟨List.getLast?_eq_none_iff.mp hlast, rfl⟩⟩⟩
    | some last =>
      obtain ⟨path, hpath⟩ := hall last (List.mem_of_getLast? hlast)
      exact ⟨path, foldlM_eq_ok.mpr ⟨hall, Or.inr ⟨last, hlast, hpath⟩⟩⟩

end

variable [DecidableEq Q] [DecidableEq B]

def isVariableSegment (segment : String) : Bool :=
  segment.toList.head? = some '{' && segment.toList.getLast? = some '}'

/-- A variable that the template names in one segment, replaced by a literal that
it matches. -/
def segmentNarrows (method : String) (segments : List String) (previous next : String) : Bool :=
  isVariableSegment previous && segments.count previous = 1 && !isVariableSegment next &&
    match CanonicalPath.fromMcpLiteral next with
    | .error _ => false
    | .ok path => ruleMatches U ⟨method, "/" ++ previous, none, []⟩ method path

/-- Only demonstrable subsets narrow: an identical operation covers, otherwise
variables may be replaced by literals. -/
def operationCovers (old new : ScopedOperation Q B) : Bool :=
  if old = new then true
  else if old.endpointId ≠ new.endpointId ∨ old.rule.method ≠ new.rule.method ∨
      old.rule.targetId ≠ new.rule.targetId ∨ !old.rule.pathParameterConstraints.isEmpty ∨
      !new.rule.pathParameterConstraints.isEmpty ∨ old.risk ≠ new.risk ∨
      old.destructive ≠ new.destructive ∨ old.changesExisting ≠ new.changesExisting ∨
      -- Adding input limits narrows; changing or removing existing ones may widen.
      (old.inputs.isSome ∧ old.inputs ≠ new.inputs) then
    false
  else
    let oldSegments := splitAt '/' old.rule.pathTemplate
    let newSegments := splitAt '/' new.rule.pathTemplate
    oldSegments.length = newSegments.length &&
      (oldSegments.zip newSegments).all fun pair =>
        pair.1 = pair.2 || segmentNarrows U old.rule.method oldSegments pair.1 pair.2

def widens (old new : Option (AgentOperationScope Q B)) : Bool :=
  match old, new with
  | none, _ => false
  | some _, none => true
  | some old, some new => new.operations.any fun entry =>
      old.catalogServiceId ≠ new.catalogServiceId ||
        !old.operations.any fun previous => operationCovers U previous entry

end

/-!
Whether authorization and input limits rest on the same operation. The forwarded form is
that of the first covering operation of the last scope, while the limits pass with any
covering operation of each scope, so the two agree only where the templates choose the
same forms.
-/

variable {Q B : Type} (U : CharClass) (C : Checks Q B)

/-- In every scope that applies, one operation covers the call, forwards it as it is
forwarded and accepts its inputs. -/
def Agrees (scopes : OperationScopes Q B) (call : Call) : Prop :=
  ∀ path, authorize U scopes call = .ok path → checkInputs U C scopes call = .ok () →
    ∀ scope ∈ applicable scopes call.serviceId call.catalogId,
      ∃ operation ∈ scope.operations, operation.covers U call = true ∧
        ruleForwardingPath U operation.rule call.method call.path = path ∧
        operation.accepts U C call = true

/-- A scope that applies has no operation for the call. -/
def Refused (scopes : OperationScopes Q B) (call : Call) : Prop :=
  ∃ scope ∈ applicable scopes call.serviceId call.catalogId,
    call.methodOverride = true ∨ call.websocket = true ∨
      ∀ operation ∈ scope.operations, operation.covers U call = true →
        operation.accepts U C call = false

/-- The first covering operation of a scope accepts the call and gives its segments these forms,
or every covering operation gives them. -/
def HasForm (call : Call) (form : List Piece) (scope : AgentOperationScope Q B) : Prop :=
  (∃ first, scope.operations.find? (·.covers U call) = some first ∧
    first.accepts U C call = true ∧ forwardForm first.rule call.path = form) ∨
  ∀ operation ∈ scope.operations, operation.covers U call = true →
    forwardForm operation.rule call.path = form

def OneForm (scopes : OperationScopes Q B) (call : Call) : Prop :=
  ∃ form, ∀ scope ∈ applicable scopes call.serviceId call.catalogId, HasForm U C call form scope

section

variable {U C} {scopes : OperationScopes Q B} {call : Call}

theorem not_letThrough_of_refused (h : Refused U C scopes call) : ¬ LetThrough U C scopes call := by
  rw [letThrough_iff]
  intro hthrough
  obtain ⟨scope, hscope, hrefused⟩ := h
  obtain ⟨⟨hoverride, hwebsocket⟩, operation, hmem, hcovers, haccepts⟩ := hthrough scope hscope
  rcases hrefused with hoverride' | hwebsocket' | hnone
  · rw [hoverride] at hoverride'
    cases hoverride'
  · rw [hwebsocket] at hwebsocket'
    cases hwebsocket'
  · rw [hnone operation hmem hcovers] at haccepts
    cases haccepts

theorem ruleMatches_of_covers {operation : ScopedOperation Q B}
    (h : operation.covers U call = true) :
    ruleMatches U operation.rule call.method call.path = true :=
  (Bool.and_eq_true_iff.mp h).2

/-- The form of an authorized call is that of the first covering operation of the last scope. -/
theorem authorize_eq_ok {path : Option String} (h : authorize U scopes call = .ok path)
    {last : AgentOperationScope Q B}
    (hlast : (applicable scopes call.serviceId call.catalogId).getLast? = some last) :
    ∃ first, last.operations.find? (·.covers U call) = some first ∧
      first.covers U call = true ∧
      path = ruleForwardingPath U first.rule call.method call.path := by
  obtain ⟨-, ⟨hnil, -⟩ | ⟨other, hother, hscope⟩⟩ := foldlM_eq_ok.mp h
  · rw [hnil] at hlast
    cases hlast
  · rw [hlast] at hother
    cases hother
    obtain ⟨-, first, hfirst, hpath⟩ := authorizeScope_eq_ok.mp hscope
    have hcovers : first.covers U call = true := by
      simpa using List.find?_some hfirst
    exact ⟨first, hfirst, hcovers, hpath⟩

/-- An authorized call is forwarded in the one form that its scopes have for it. -/
theorem forwarding_of_hasForm {form : List Piece} {path : Option String}
    {scope : AgentOperationScope Q B} (hpath : authorize U scopes call = .ok path)
    (hone : ∀ scope ∈ applicable scopes call.serviceId call.catalogId, HasForm U C call form scope)
    (hscope : scope ∈ applicable scopes call.serviceId call.catalogId)
    {operation : ScopedOperation Q B} (hcovers : operation.covers U call = true)
    (hform : forwardForm operation.rule call.path = form) :
    ruleForwardingPath U operation.rule call.method call.path = path := by
  cases hlast : (applicable scopes call.serviceId call.catalogId).getLast? with
  | none =>
    rw [List.getLast?_eq_none_iff.mp hlast] at hscope
    cases hscope
  | some last =>
    obtain ⟨first, hfirst, hcoversFirst, rfl⟩ := authorize_eq_ok hpath hlast
    rw [ruleForwardingPath_eq_iff (ruleMatches_of_covers hcovers) (ruleMatches_of_covers hcoversFirst),
      hform]
    rcases hone last (List.mem_of_getLast? hlast) with ⟨found, hfound, -, hsame⟩ | hall
    · rw [hfirst] at hfound
      cases hfound
      exact hsame.symm
    · exact (hall first (List.mem_of_find?_eq_some hfirst) hcoversFirst).symm

/-- Authorization and input limits agree on one operation of each scope when the call is refused or
the scopes have one form for it. -/
theorem agrees_of_oneForm (h : Refused U C scopes call ∨ OneForm U C scopes call) :
    Agrees U C scopes call := by
  intro path hpath hinputs scope hscope
  rcases h with hrefused | ⟨form, hone⟩
  · exact absurd ⟨⟨path, hpath⟩, hinputs⟩ (not_letThrough_of_refused hrefused)
  · rcases hone scope hscope with ⟨first, hfirst, haccepts, hform⟩ | hall
    · have hcovers : first.covers U call = true := by
        simpa using List.find?_some hfirst
      exact ⟨first, List.mem_of_find?_eq_some hfirst, hcovers,
        forwarding_of_hasForm hpath hone hscope hcovers hform, haccepts⟩
    · obtain ⟨operation, hmem, hcovers, haccepts⟩ := checkInputs_eq_ok.mp hinputs scope hscope
      exact ⟨operation, hmem, hcovers,
        forwarding_of_hasForm hpath hone hscope hcovers (hall operation hmem hcovers), haccepts⟩

end

section

/-- Running is limited to one cell, while appending to a range has no limits. -/
def sheetScope : AgentOperationScope Unit Unit :=
  ⟨1, none,
    [⟨some "run", ⟨"POST", "/values/\x7bcell\x7d:run", none, []⟩, none, false, none,
      some ⟨[("cell", .exact "B2")], none, none⟩⟩,
     ⟨some "append", ⟨"POST", "/values/\x7brange\x7d", none, [("range", .sheetsA1Range)]⟩, none,
      false, none, none⟩]⟩

def sheetCall : Call :=
  ⟨"sheets", none, none, "POST", ⟨["values", "A1:run"], by decide⟩, false, false, none, [], none⟩

/-- The scope of the catalog has the method without limits. -/
def methodScope : AgentOperationScope Unit Unit :=
  ⟨1, none, [⟨none, ⟨"POST", "/values/\x7brange\x7d:run", none, []⟩, none, false, none, none⟩]⟩

def allowedCall : Call :=
  { sheetCall with catalogId := some "google", path := ⟨["values", "B2:run"], by decide⟩ }

theorem allowedCall_agrees :
    Agrees asciiClass noChecks [("sheets", sheetScope), ("google", methodScope)] allowedCall :=
  agrees_of_oneForm (Or.inr ⟨[.plain, .method], fun scope hscope => by
    rcases List.mem_cons.mp hscope with rfl | hscope
    · exact Or.inl ⟨_, rfl, rfl, rfl⟩
    · obtain rfl := List.mem_singleton.mp hscope
      refine Or.inr fun operation hmem _ => ?_
      obtain rfl := List.mem_singleton.mp hmem
      rfl⟩)

/-- A range that ends like a custom method is forwarded as that method. -/
theorem limit_of_other_operation : ¬ Agrees asciiClass noChecks [("sheets", sheetScope)] sheetCall := by
  intro h
  obtain ⟨operation, hmem, -, hforward, haccepts⟩ :=
    h (some "values/A1:run") rfl rfl sheetScope (List.mem_singleton_self _)
  rcases List.mem_cons.mp hmem with rfl | hmem
  · revert haccepts
    decide
  · obtain rfl := List.mem_singleton.mp hmem
    revert hforward
    decide

end

end NyxId.OperationScope
