import NyxId.OperationScope.Scopes
import NyxId.OperationScope.Templates

/-!
Narrowing a saved scope. Replacing a variable by a literal keeps every match as long as
no other segment of the template captures the same variable; the comparison counts whole
segments, so a use under a custom method goes unseen.
-/

namespace NyxId.OperationScope

variable {Q B : Type} {U : CharClass} {C : Checks Q B}

theorem isVariable_of_name {segment name : String} (h : parameterName segment = some name) :
    isVariableSegment segment = true := by
  obtain ⟨inner, hstart, hsuffix⟩ := Option.bind_eq_some_iff.mp h
  have hopen := stripPrefix_eq_some hstart
  have hclose := stripSuffix_eq_some hsuffix
  have hlast : segment.toList.getLast? = some '}' := by
    rw [hopen, hclose, ← List.append_assoc]
    exact List.getLast?_concat
  unfold isVariableSegment
  rw [hlast, hopen]
  rfl

theorem name_of_isVariable {segment : String} (h : isVariableSegment segment = true) :
    ∃ name, parameterName segment = some name := by
  unfold isVariableSegment at h
  obtain ⟨hopen, hclose⟩ := Bool.and_eq_true_iff.mp h
  cases hlist : segment.toList with
  | nil =>
    rw [hlist] at hopen
    cases hopen
  | cons c rest =>
    rw [hlist] at hopen hclose
    obtain rfl : c = '{' := by simpa using hopen
    cases hrest : rest.getLast? with
    | none =>
      rw [List.getLast?_eq_none_iff.mp hrest] at hclose
      cases hclose
    | some last =>
      obtain ⟨front, hfront⟩ := List.getLast?_eq_some_iff.mp hrest
      have hlast : last = '}' := by
        rw [hfront, ← List.cons_append, List.getLast?_concat] at hclose
        simpa using hclose
      refine ⟨String.ofList front, Option.bind_eq_some_iff.mpr ⟨String.ofList rest, ?_, ?_⟩⟩
      · exact stripPrefix_append hlist
      · refine stripSuffix_append ?_
        rw [String.toList_ofList, hfront, hlast]
        rfl

theorem fromMcpLiteral_segment {segment : String} {path : CanonicalPath}
    (hslash : '/' ∉ segment.toList) (h : CanonicalPath.fromMcpLiteral segment = .ok path) :
    path.segments = if segment.isEmpty then [] else [segment] := by
  unfold CanonicalPath.fromMcpLiteral CanonicalPath.fromDecoded at h
  obtain ⟨_, -, h⟩ := bind_eq_ok.mp h
  have htrimmed : (stripPrefix "/" segment).getD segment = segment := by
    cases hstart : stripPrefix "/" segment with
    | none => rfl
    | some rest =>
      rw [stripPrefix_eq_some hstart] at hslash
      exact absurd (List.mem_append_left _ List.mem_cons_self) hslash
  simp only [htrimmed] at h
  split at h
  · rename_i hempty
    cases h
    rw [if_pos hempty]
  · rename_i hempty
    cases h
    rw [if_neg hempty]
    exact splitAt_eq_singleton hslash

theorem name_of_literal {segment : String} (hvariable : isVariableSegment segment = false)
    (hcolon : ':' ∉ segment.toList) : segmentName segment = none := by
  unfold segmentName splitTemplateSegment
  rw [splitOnce_eq_none hcolon]
  cases hname : parameterName segment with
  | none => rfl
  | some name =>
    rw [isVariable_of_name hname] at hvariable
    cases hvariable

/-- A validated variable carries no custom method. -/
theorem split_of_isVariable {segment : String} (hvariable : isVariableSegment segment = true)
    (hvalid : validateTemplateSegment segment = .ok ()) :
    splitTemplateSegment segment = (segment, none) := by
  unfold splitTemplateSegment
  cases hsplit : splitOnce ':' segment with
  | none => rfl
  | some parts =>
    exfalso
    have hparts := splitOnce_eq_some hsplit
    unfold validateTemplateSegment splitTemplateSegment at hvalid
    rw [hsplit] at hvalid
    simp only [Option.any_some] at hvalid
    split at hvalid
    · cases hvalid
    · rename_i hverb
      have hlast : segment.toList.getLast? = some '}' := by
        simpa using (Bool.and_eq_true_iff.mp hvariable).2
      obtain ⟨hne, hall⟩ : parts.2.isEmpty = false ∧ parts.2.toList.all isAsciiAlphanumeric = true := by
        simpa using hverb
      rw [hparts, List.getLast?_append, List.getLast?_cons] at hlast
      cases hverbLast : parts.2.toList.getLast? with
      | none =>
        rw [List.getLast?_eq_none_iff] at hverbLast
        rw [String.isEmpty_eq_false_iff] at hne
        exact hne (String.toList_eq_nil_iff.mp hverbLast)
      | some last =>
        rw [hverbLast] at hlast
        obtain rfl : last = '}' := by simpa using hlast
        have hletter := List.all_eq_true.mp hall '}' (List.mem_of_getLast? hverbLast)
        revert hletter
        decide

/-- What a narrowed segment is: a variable without a custom method, and a literal that a
variable may take. -/
structure Narrowed (U : CharClass) (previous next : String) (name : String) : Prop where
  variableName : segmentName previous = some name
  noVerb : (splitTemplateSegment previous).2 = none
  literal : segmentName next = none
  value : parameterMatches U none next = true

theorem validateRule_single {method segment : String} (hslash : '/' ∉ segment.toList)
    (hne : segment.toList ≠ []) (h : validateRule ⟨method, "/" ++ segment, none, []⟩ = .ok ()) :
    validateTemplateSegment segment = .ok () := by
  obtain ⟨_, htemplate, -⟩ := bind_eq_ok.mp h
  have hchars : ("/" ++ segment).toList = '/' :: segment.toList := by
    rw [String.toList_append]
    rfl
  have hdrop : ("/" ++ segment).toList.dropWhile (· = '/') = segment.toList := by
    rw [hchars, List.dropWhile_cons_of_pos (by simp)]
    cases hlist : segment.toList with
    | nil => rfl
    | cons c rest =>
      rw [hlist] at hslash
      refine List.dropWhile_cons_of_neg ?_
      simpa using fun h : c = '/' => hslash (h ▸ List.mem_cons_self)
  have hroot : "/" ++ segment ≠ "/" := by
    intro heq
    have hlist := congrArg String.toList heq
    rw [hchars] at hlist
    exact hne (List.cons.inj hlist).2
  unfold validateTemplate at htemplate
  split at htemplate
  · cases htemplate
  split at htemplate
  · cases htemplate
  split at htemplate
  · cases htemplate
  rw [hdrop, String.ofList_toList, splitAt_eq_singleton hslash] at htemplate
  obtain ⟨_, hsegment, -⟩ := bind_eq_ok.mp htemplate
  exact hsegment

theorem templateSegments_single {method segment : String} (hslash : '/' ∉ segment.toList)
    (hne : segment.toList ≠ []) :
    templateSegments ⟨method, "/" ++ segment, none, []⟩ = [segment] := by
  rw [templateSegments_eq]
  have hsplit : splitAt '/' ("/" ++ segment) = ["", segment] := by
    unfold splitAt
    have hchars : ("/" ++ segment).toList = '/' :: segment.toList := by
      rw [String.toList_append]
      rfl
    rw [hchars, List.splitOn_cons_eq_if_modifyHead, if_pos (by simp),
      List.splitOn_eq_singleton hslash]
    simp
  have hempty : segment.isEmpty = false := by
    rw [String.isEmpty_eq_false_iff]
    exact fun h => hne (by rw [h]; rfl)
  rw [hsplit, List.filter_cons_of_neg (by simp), List.filter_cons_of_pos (by simp [hempty]),
    List.filter_nil]

/-- Without value grammars a variable captures one segment. -/
theorem matchSegments_variable {rule : ProxyOperationRule} {template name : String}
    {templates actual : List String} {arguments result : List (String × String)}
    (hfree : rule.pathParameterConstraints = []) (hname : segmentName template = some name) :
    matchSegments U rule (template :: templates) actual arguments = some result ↔
      ∃ segment rest value bound, actual = segment :: rest ∧
        capturedValue template segment = some value ∧ parameterMatches U none value = true ∧
        bindArgument arguments name value = some bound ∧
        matchSegments U rule templates rest bound = some result := by
  have hconstraint : rule.constraint name = none := by
    unfold ProxyOperationRule.constraint
    rw [hfree]
    rfl
  have hmulti : rule.isMultiSegment name = false := by
    unfold ProxyOperationRule.isMultiSegment
    rw [hconstraint]
    rfl
  have hvalue (segment : String) : captureValue U rule name (splitTemplateSegment template).2 segment =
      (capturedValue template segment).bind fun value =>
        if !parameterMatches U none value then none else some value := by
    rw [captureValue_eq, hmulti, hconstraint]
    rfl
  rw [matchSegments.eq_def]
  simp only [show parameterName (splitTemplateSegment template).1 = some name from hname, hmulti]
  cases actual with
  | nil => simp [capture]
  | cons segment rest =>
    simp only [capture, Bool.false_eq_true, if_false, Option.bind_eq_bind, Option.bind_some, hvalue,
      Option.bind_eq_some_iff]
    constructor
    · rintro ⟨value, ⟨captured, hcaptured, hmatches⟩, bound, hbound, h⟩
      split at hmatches
      · cases hmatches
      · rename_i hok
        cases hmatches
        exact ⟨segment, rest, value, bound, rfl, hcaptured, by simpa using hok, hbound, h⟩
    · rintro ⟨_, _, value, bound, heq, hcaptured, hok, hbound, h⟩
      cases heq
      exact ⟨value, ⟨value, hcaptured, by rw [hok]; rfl⟩, bound, hbound, h⟩

/-- A narrowed segment is a variable replaced by a value of it. -/
theorem narrowed_of_segmentNarrows {method previous next : String} {segments : List String}
    (hprevious : '/' ∉ previous.toList) (hnext : '/' ∉ next.toList)
    (h : segmentNarrows U method segments previous next = true) :
    ∃ name, Narrowed U previous next name := by
  unfold segmentNarrows at h
  obtain ⟨h, hmatch⟩ := Bool.and_eq_true_iff.mp h
  obtain ⟨h, hliteral⟩ := Bool.and_eq_true_iff.mp h
  obtain ⟨hvariable, -⟩ := Bool.and_eq_true_iff.mp h
  have hne : previous.toList ≠ [] := by
    intro hnil
    unfold isVariableSegment at hvariable
    rw [hnil] at hvariable
    cases hvariable
  split at hmatch
  · cases hmatch
  rename_i path hpath
  obtain ⟨-, hsome⟩ := Bool.and_eq_true_iff.mp hmatch
  obtain ⟨arguments, harguments⟩ := Option.isSome_iff_exists.mp hsome
  unfold matchPathArguments at harguments
  split at harguments
  · cases harguments
  rename_i hrule
  obtain ⟨name, hname⟩ := name_of_isVariable hvariable
  have hsplit := split_of_isVariable hvariable (validateRule_single hprevious hne hrule)
  have hsegment : segmentName previous = some name := by
    unfold segmentName
    rw [hsplit]
    exact hname
  rw [templateSegments_single hprevious hne, fromMcpLiteral_segment hnext hpath] at harguments
  obtain ⟨segment, rest, value, _, hactual, hvalue, hmatches, -, -⟩ :=
    (matchSegments_variable rfl hsegment).mp harguments
  split at hactual
  · cases hactual
  cases hactual
  unfold capturedValue at hvalue
  rw [hsplit] at hvalue
  cases hvalue
  refine ⟨name, hsegment, ?_, ?_, hmatches⟩
  · rw [hsplit]
  · exact name_of_literal (by simpa using hliteral) (notMem_colon_of_parameterMatches hmatches)

section

variable (U) (narrowed : String → Prop)

/-- How a segment of the old template relates to that of the new one. -/
inductive SegmentPair : String → String → Prop where
  | kept {segment : String} (free : ∀ name, segmentName segment = some name → ¬ narrowed name) :
      SegmentPair segment segment
  | replaced {previous next name : String} (narrows : Narrowed U previous next name)
      (mem : narrowed name) : SegmentPair previous next

/-- The old captures extend the new ones by the narrowed variables. -/
structure Extends (templates : List String) (old new : List (String × String)) : Prop where
  kept : ∀ name, ¬ narrowed name → old.lookup name = new.lookup name
  unbound : ∀ name, narrowed name → new.lookup name = none
  open_ : ∀ name, narrowed name → ∀ template ∈ templates, segmentName template = some name →
    old.lookup name = none

end

section

variable {narrowed : String → Prop}

theorem lookup_cons_ne {arguments : List (String × String)} {name other value : String}
    (h : other ≠ name) : ((name, value) :: arguments).lookup other = arguments.lookup other := by
  rw [List.lookup_cons, beq_false_of_ne h]

theorem Extends.tail {template : String} {templates : List String}
    {old new : List (String × String)} (h : Extends narrowed (template :: templates) old new) :
    Extends narrowed templates old new :=
  ⟨h.kept, h.unbound, fun name hname other hother =>
    h.open_ name hname other (List.mem_cons_of_mem _ hother)⟩

/-- A kept variable is bound in both captures or in neither. -/
theorem Extends.bind {templates : List String} {old new bound : List (String × String)}
    {name value : String} (h : Extends narrowed templates old new) (hname : ¬ narrowed name)
    (hbind : bindArgument new name value = some bound) :
    ∃ boundOld, bindArgument old name value = some boundOld ∧
      Extends narrowed templates boundOld bound := by
  unfold bindArgument at hbind ⊢
  rw [h.kept name hname]
  split at hbind
  · rename_i previous hlookup
    split at hbind
    · cases hbind
    · rename_i hsame
      cases hbind
      exact ⟨old, if_neg hsame, h⟩
  · rename_i hlookup
    cases hbind
    refine ⟨(name, value) :: old, rfl, ?_, ?_, ?_⟩
    · intro other hother
      by_cases heq : other = name
      · rw [heq, List.lookup_cons_self, List.lookup_cons_self]
      · rw [lookup_cons_ne heq, lookup_cons_ne heq, h.kept other hother]
    · intro other hother
      have hne : other ≠ name := fun heq => hname (heq ▸ hother)
      rw [lookup_cons_ne hne]
      exact h.unbound other hother
    · intro other hother template htemplate hsegment
      have hne : other ≠ name := fun heq => hname (heq ▸ hother)
      rw [lookup_cons_ne hne]
      exact h.open_ other hother template htemplate hsegment

/-- A variable that no later segment uses is bound to its literal. -/
theorem Extends.replace {templates : List String} {old new : List (String × String)}
    {name value : String} (h : Extends narrowed templates old new) (hname : narrowed name)
    (hunused : ∀ template ∈ templates, segmentName template ≠ some name) :
    Extends narrowed templates ((name, value) :: old) new := by
  refine ⟨?_, h.unbound, ?_⟩
  · intro other hother
    have hne : other ≠ name := fun heq => hother (heq ▸ hname)
    rw [lookup_cons_ne hne]
    exact h.kept other hother
  · intro other hother template htemplate hsegment
    have hne : other ≠ name := by
      rintro rfl
      exact hunused template htemplate hsegment
    rw [lookup_cons_ne hne]
    exact h.open_ other hother template htemplate hsegment

/-- What the new template matches the old one matches, with more captures. -/
theorem matchSegments_narrowed {old new : ProxyOperationRule}
    (hold : old.pathParameterConstraints = []) (hnew : new.pathParameterConstraints = [])
    {templates narrower : List String}
    (hpairs : List.Forall₂ (SegmentPair U narrowed) templates narrower)
    (honce : ∀ name, narrowed name →
      templates.countP (fun template => segmentName template = some name) ≤ 1)
    {actual : List String} {argumentsOld argumentsNew result : List (String × String)}
    (hextends : Extends narrowed templates argumentsOld argumentsNew)
    (hmatch : matchSegments U new narrower actual argumentsNew = some result) :
    ∃ resultOld, matchSegments U old templates actual argumentsOld = some resultOld ∧
      Extends narrowed [] resultOld result := by
  induction hpairs generalizing actual argumentsOld argumentsNew with
  | nil =>
    cases actual with
    | nil =>
      cases hmatch
      exact ⟨argumentsOld, rfl, hextends⟩
    | cons segment rest => cases hmatch
  | @cons template next templates narrower hpair hpairs ih =>
    have htail : ∀ name, narrowed name →
        templates.countP (fun template => segmentName template = some name) ≤ 1 := fun name hname =>
      (List.Sublist.countP_le (List.sublist_cons_self template templates)).trans (honce name hname)
    cases hpair with
    | kept hfree =>
      cases hname : segmentName template with
      | none =>
        obtain ⟨rest, hactual, hmatch⟩ := (matchSegments_literal hname).mp hmatch
        obtain ⟨resultOld, hresult, hextends⟩ := ih htail hextends.tail hmatch
        exact ⟨resultOld, (matchSegments_literal hname).mpr ⟨rest, hactual, hresult⟩, hextends⟩
      | some name =>
        obtain ⟨segment, rest, value, bound, hactual, hvalue, hok, hbind, hmatch⟩ :=
          (matchSegments_variable hnew hname).mp hmatch
        obtain ⟨boundOld, hboundOld, hextends⟩ := hextends.tail.bind (hfree name hname) hbind
        obtain ⟨resultOld, hresult, hextends⟩ := ih htail hextends hmatch
        exact ⟨resultOld, (matchSegments_variable hold hname).mpr
          ⟨segment, rest, value, boundOld, hactual, hvalue, hok, hboundOld, hresult⟩, hextends⟩
    | @replaced _ name hnarrows hname =>
      obtain ⟨rest, hactual, hmatch⟩ := (matchSegments_literal hnarrows.literal).mp hmatch
      have hunused : ∀ other ∈ templates, segmentName other ≠ some name := by
        intro other hother heq
        have hcount := honce name hname
        rw [List.countP_cons_of_pos (by simpa using hnarrows.variableName)] at hcount
        have hpos : 0 < templates.countP (fun template => segmentName template = some name) :=
          List.countP_pos_iff.mpr ⟨other, hother, by simpa using heq⟩
        omega
      obtain ⟨resultOld, hresult, hextendsOut⟩ :=
        ih htail (hextends.tail.replace hname hunused) hmatch
      refine ⟨resultOld, (matchSegments_variable hold hnarrows.variableName).mpr
        ⟨next, rest, next, (name, next) :: argumentsOld, hactual, ?_, hnarrows.value, ?_, hresult⟩,
        hextendsOut⟩
      · unfold capturedValue
        rw [hnarrows.noVerb]
      · unfold bindArgument
        rw [hextends.open_ name hname template List.mem_cons_self hnarrows.variableName]

end

section

variable {old new : ScopedOperation Q B}

/-- What the comparison pins of an operation that is not the same. -/
structure Pinned (U : CharClass) (old new : ScopedOperation Q B) : Prop where
  endpointId : old.endpointId = new.endpointId
  method : old.rule.method = new.rule.method
  oldFree : old.rule.pathParameterConstraints = []
  newFree : new.rule.pathParameterConstraints = []
  inputs : old.inputs = none ∨ old.inputs = new.inputs
  length : (splitAt '/' old.rule.pathTemplate).length = (splitAt '/' new.rule.pathTemplate).length
  segments : ∀ pair ∈ (splitAt '/' old.rule.pathTemplate).zip (splitAt '/' new.rule.pathTemplate),
    pair.1 = pair.2 ∨
      segmentNarrows U old.rule.method (splitAt '/' old.rule.pathTemplate) pair.1 pair.2 = true

/-- How many segments of a template capture the variable of a segment. -/
def variableUses (segments : List String) (segment : String) : ℕ :=
  segments.countP fun other => segmentName other = segmentName segment

/-- Every variable that is replaced is captured by one segment, also counting those with a
custom method. -/
def replacesSingleUse (old new : ScopedOperation Q B) : Bool :=
  ((splitAt '/' old.rule.pathTemplate).zip (splitAt '/' new.rule.pathTemplate)).all fun pair =>
    pair.1 = pair.2 || variableUses (splitAt '/' old.rule.pathTemplate) pair.1 = 1

/-- The variables that an operation replaces. -/
def ReplacedName (old new : ScopedOperation Q B) (name : String) : Prop :=
  ∃ pair ∈ (splitAt '/' old.rule.pathTemplate).zip (splitAt '/' new.rule.pathTemplate),
    pair.1 ≠ pair.2 ∧ segmentName pair.1 = some name

theorem eq_of_countP_eq_one {α : Type} {p : α → Bool} {items : List α} {a b : α}
    (hcount : items.countP p = 1) (ha : a ∈ items) (hb : b ∈ items) (hpa : p a = true)
    (hpb : p b = true) : a = b := by
  rw [List.countP_eq_length_filter] at hcount
  obtain ⟨c, hc⟩ := List.length_eq_one_iff.mp hcount
  have hfound (x : α) (hx : x ∈ items) (hpx : p x = true) : x = c := by
    have hmem : x ∈ items.filter p := List.mem_filter.mpr ⟨hx, hpx⟩
    rw [hc] at hmem
    exact List.mem_singleton.mp hmem
  rw [hfound a ha hpa, hfound b hb hpb]

theorem countP_replacedName (h : replacesSingleUse old new = true) {name : String}
    (hname : ReplacedName old new name) :
    (splitAt '/' old.rule.pathTemplate).countP (fun segment => segmentName segment = some name) = 1 := by
  obtain ⟨pair, hpair, hne, hsegment⟩ := hname
  have huses := List.all_eq_true.mp h pair hpair
  rw [Bool.or_eq_true_iff] at huses
  rcases huses with heq | huses
  · exact absurd (of_decide_eq_true heq) hne
  · have hcount := of_decide_eq_true huses
    unfold variableUses at hcount
    rwa [hsegment] at hcount

theorem segmentPairs (hpinned : Pinned U old new) (h : replacesSingleUse old new = true) :
    List.Forall₂ (SegmentPair U (ReplacedName old new))
      (templateSegments old.rule) (templateSegments new.rule) := by
  have hall : List.Forall₂ (SegmentPair U (ReplacedName old new))
      (splitAt '/' old.rule.pathTemplate) (splitAt '/' new.rule.pathTemplate) := by
    refine List.forall₂_iff_zip.mpr ⟨hpinned.length, fun {previous next} hpair => ?_⟩
    by_cases heq : previous = next
    · subst heq
      refine SegmentPair.kept fun name hname hreplaced => ?_
      have hcount := countP_replacedName h hreplaced
      obtain ⟨pair, hpair', hne, hsegment⟩ := hreplaced
      rw [← List.map_fst_zip hpinned.length.le, List.countP_map] at hcount
      have hsame := eq_of_countP_eq_one hcount hpair hpair' (by simpa using hname)
        (by simpa using hsegment)
      exact hne (by rw [← hsame])
    · rcases hpinned.segments _ hpair with h' | h'
      · exact absurd h' heq
      · have hmem := List.of_mem_zip hpair
        obtain ⟨name, hnarrowed⟩ := narrowed_of_segmentNarrows
          (notMem_splitAt '/' _ _ hmem.1) (notMem_splitAt '/' _ _ hmem.2) h'
        exact SegmentPair.replaced hnarrowed ⟨_, hpair, heq, hnarrowed.variableName⟩
  rw [templateSegments_eq, templateSegments_eq]
  refine List.rel_filter (fun previous next hpair => ?_) hall
  cases hpair with
  | kept => rfl
  | replaced hnarrows =>
    have hnext := ne_empty_of_parameterMatches hnarrows.value
    have hprevious : previous ≠ "" := by
      rintro rfl
      have hnone : segmentName "" = none := by decide
      have hsome := hnarrows.variableName
      rw [hnone] at hsome
      cases hsome
    simp [hnext, hprevious]

theorem Extends.lookup {narrowed : String → Prop} {templates : List String}
    {argumentsOld argumentsNew : List (String × String)}
    (h : Extends narrowed templates argumentsOld argumentsNew) {name value : String}
    (hlookup : argumentsNew.lookup name = some value) : argumentsOld.lookup name = some value := by
  by_cases hname : narrowed name
  · rw [h.unbound name hname] at hlookup
    cases hlookup
  · rw [h.kept name hname, hlookup]

/-- Limits that pass still pass when more variables are bound. -/
theorem check_mono {inputs : InputRules Q B} {argumentsOld argumentsNew : List (String × String)}
    {query : Option String} {body : List UInt8} {contentType : Option String}
    (hlookup : ∀ name value, argumentsNew.lookup name = some value →
      argumentsOld.lookup name = some value)
    (h : inputs.check C argumentsNew query body contentType = .ok ()) :
    inputs.check C argumentsOld query body contentType = .ok () := by
  unfold InputRules.check at h ⊢
  obtain ⟨_, hpath, hrest⟩ := bind_eq_ok.mp h
  have hpathOld : inputs.path.forM (checkPathRule argumentsOld) = .ok () := by
    clear h hrest
    generalize inputs.path = rules at hpath
    induction rules with
    | nil => rfl
    | cons rule rules ih =>
      obtain ⟨_, hrule, hrules⟩ := bind_eq_ok.mp hpath
      have hruleOld : checkPathRule argumentsOld rule = .ok () := by
        unfold checkPathRule at hrule ⊢
        split at hrule
        · cases hrule
        · rename_i value hvalue
          rw [hlookup _ _ hvalue]
          exact hrule
      show (checkPathRule argumentsOld rule >>= fun _ => rules.forM (checkPathRule argumentsOld)) = _
      rw [hruleOld]
      exact ih hrules
  rw [hpathOld]
  exact hrest

/-- With the catalog service kept, the old scope applies exactly where the new one does. -/
theorem applicable_replaced {before after : OperationScopes Q B} {id serviceId : String}
    {catalogId : Option String} {old new : AgentOperationScope Q B}
    (hcatalog : old.catalogServiceId = new.catalogServiceId) {scope : AgentOperationScope Q B}
    (hscope : scope ∈ applicable (before ++ (id, old) :: after) serviceId catalogId) :
    scope ∈ applicable (before ++ (id, new) :: after) serviceId catalogId ∨
      scope = old ∧ new ∈ applicable (before ++ (id, new) :: after) serviceId catalogId := by
  unfold applicable at hscope ⊢
  obtain ⟨⟨key, saved⟩, hmem, hfound⟩ := List.mem_filterMap.mp hscope
  rcases List.mem_append.mp hmem with hmem | hmem
  · exact Or.inl (List.mem_filterMap.mpr ⟨_, List.mem_append_left _ hmem, hfound⟩)
  rcases List.mem_cons.mp hmem with heq | hmem
  · cases heq
    have hnew : (id, new) ∈ before ++ (id, new) :: after :=
      List.mem_append_right _ List.mem_cons_self
    simp only at hfound
    split at hfound
    · rename_i happlies
      cases hfound
      rw [hcatalog] at happlies
      exact Or.inr ⟨rfl, List.mem_filterMap.mpr ⟨_, hnew, if_pos happlies⟩⟩
    · cases hfound
  · exact Or.inl (List.mem_filterMap.mpr
      ⟨_, List.mem_append_right _ (List.mem_cons_of_mem _ hmem), hfound⟩)

variable [DecidableEq Q] [DecidableEq B]

theorem pinned_of_operationCovers (hne : old ≠ new) (h : operationCovers U old new = true) :
    Pinned U old new := by
  unfold operationCovers at h
  rw [if_neg hne] at h
  split at h
  · cases h
  rename_i hpins
  simp only [not_or, ne_eq, Decidable.not_not, Bool.not_eq_true, Bool.not_eq_false',
    List.isEmpty_iff, not_and] at hpins
  obtain ⟨hendpoint, hmethod, -, hold, hnew, -, -, -, hinputs⟩ := hpins
  obtain ⟨hlength, hsegments⟩ := Bool.and_eq_true_iff.mp h
  refine ⟨hendpoint, hmethod, by simpa using hold, by simpa using hnew, ?_, by simpa using hlength, ?_⟩
  · cases hsome : old.inputs with
    | none => exact Or.inl rfl
    | some inputs =>
      rw [hsome] at hinputs
      exact Or.inr (hinputs rfl)
  · intro pair hpair
    simpa using List.all_eq_true.mp hsegments pair hpair

/-- An operation that narrows another one without a hidden use covers and accepts no
further call. -/
theorem covers_of_narrowed {call : Call} (hcovers : operationCovers U old new = true)
    (hsingle : replacesSingleUse old new = true) (hvalid : validateRule old.rule = .ok ())
    (hcall : new.covers U call = true) :
    old.covers U call = true ∧ (new.accepts U C call = true → old.accepts U C call = true) := by
  by_cases heq : old = new
  · rw [heq]
    exact ⟨hcall, fun h => h⟩
  have hpinned := pinned_of_operationCovers heq hcovers
  obtain ⟨hendpoint, hmatches⟩ := Bool.and_eq_true_iff.mp hcall
  obtain ⟨hmethod, hsome⟩ := Bool.and_eq_true_iff.mp hmatches
  obtain ⟨result, hresult⟩ := Option.isSome_iff_exists.mp hsome
  have hmatch := hresult
  unfold matchPathArguments at hmatch
  split at hmatch
  · cases hmatch
  obtain ⟨resultOld, hresultOld, hextends⟩ := matchSegments_narrowed hpinned.oldFree hpinned.newFree
    (segmentPairs hpinned hsingle)
    (fun name hname => (List.Sublist.countP_le (by
      rw [templateSegments_eq]
      exact List.filter_sublist)).trans (countP_replacedName hsingle hname).le)
    ⟨fun _ _ => rfl, fun _ _ => rfl, fun _ _ _ _ _ => rfl⟩ hmatch
  have hargumentsOld : matchPathArguments U old.rule call.path = some resultOld := by
    unfold matchPathArguments
    rw [hvalid]
    exact hresultOld
  refine ⟨?_, fun haccepts => ?_⟩
  · unfold ScopedOperation.covers ruleMatches
    rw [hpinned.endpointId, hpinned.method, hargumentsOld]
    exact Bool.and_eq_true_iff.mpr ⟨hendpoint, Bool.and_eq_true_iff.mpr ⟨hmethod, rfl⟩⟩
  · unfold ScopedOperation.accepts ScopedOperation.checkInputs at haccepts ⊢
    rcases hpinned.inputs with hnone | hsame
    · rw [hnone]
    · rw [hargumentsOld, hsame]
      rw [hresult] at haccepts
      cases hinputs : new.inputs with
      | none => rfl
      | some inputs =>
        rw [hinputs] at haccepts
        simp only [Option.getD_some] at haccepts ⊢
        split at haccepts
        · rename_i hok
          rw [check_mono (fun _ _ => hextends.lookup) hok]
        · cases haccepts

variable (U) in
/-- Every new operation narrows an old one without a hidden use of a replaced variable, and
a scope left without operations keeps its catalog service. -/
def NarrowsSoundly (old new : AgentOperationScope Q B) : Prop :=
  (new.operations = [] → old.catalogServiceId = new.catalogServiceId) ∧
    ∀ entry ∈ new.operations, ∃ previous ∈ old.operations,
      operationCovers U previous entry = true ∧ replacesSingleUse previous entry = true

theorem catalog_of_not_widens {old new : AgentOperationScope Q B}
    (hwidens : widens U (some old) (some new) = false) (hne : new.operations ≠ []) :
    old.catalogServiceId = new.catalogServiceId := by
  obtain ⟨entry, rest, hcons⟩ := List.exists_cons_of_ne_nil hne
  have hentry := List.any_eq_false.mp hwidens entry (by rw [hcons]; exact List.mem_cons_self)
  by_contra hcatalog
  exact hentry (by rw [decide_eq_true hcatalog]; rfl)

/-- A scope that the comparison saves without a review lets no further call through. -/
theorem narrowing_sound {old new : AgentOperationScope Q B}
    (hrules : ∀ operation ∈ old.operations, validateRule operation.rule = .ok ())
    (hwidens : widens U (some old) (some new) = false) (hsound : NarrowsSoundly U old new)
    {before after : OperationScopes Q B} {id : String} {call : Call}
    (h : LetThrough U C (before ++ (id, new) :: after) call) :
    LetThrough U C (before ++ (id, old) :: after) call := by
  have hcatalog : old.catalogServiceId = new.catalogServiceId := by
    by_cases hempty : new.operations = []
    · exact hsound.1 hempty
    · exact catalog_of_not_widens hwidens hempty
  rw [letThrough_iff] at h ⊢
  intro scope hscope
  rcases applicable_replaced hcatalog hscope with hscope | ⟨rfl, hnew⟩
  · exact h scope hscope
  · obtain ⟨hplain, entry, hentry, hcovers, haccepts⟩ := h new hnew
    obtain ⟨previous, hprevious, hnarrows, hsingle⟩ := hsound.2 entry hentry
    obtain ⟨hcoversOld, hacceptsOld⟩ :=
      covers_of_narrowed hnarrows hsingle (hrules previous hprevious) hcovers
    exact ⟨hplain, previous, hprevious, hcoversOld, hacceptsOld haccepts⟩

end

section

def getScope (template : String) : AgentOperationScope Unit Unit :=
  ⟨1, none, [⟨none, ⟨"GET", template, none, []⟩, none, false, none, none⟩]⟩

def getCall (path : CanonicalPath) : Call :=
  ⟨"mail", none, none, "GET", path, false, false, none, [], none⟩

theorem literal_item_narrows :
    LetThrough asciiClass noChecks ([] ++ [("mail", getScope "/items/{id}")])
      (getCall ⟨["items", "a"], by decide⟩) := by
  have hrules : ∀ operation ∈ (getScope "/items/\x7bid\x7d").operations,
      validateRule operation.rule = .ok () := by
    intro operation hmem
    rw [List.mem_singleton.mp hmem]
    rfl
  have hwidens : widens asciiClass (some (getScope "/items/\x7bid\x7d"))
      (some (getScope "/items/a")) = false := by decide
  refine narrowing_sound hrules hwidens ⟨fun h => (nomatch h), fun entry hmem => ?_⟩
    ⟨⟨some "items/a", rfl⟩, rfl⟩
  refine ⟨_, List.mem_cons_self, ?_⟩
  rw [List.mem_singleton.mp hmem]
  decide

/-- The variable of a segment is also used under a custom method of another one. -/
theorem hidden_use_widens :
    (validateRule ⟨"GET", "/{id}/{id}:run", none, []⟩ = .ok () ∧
      validateRule ⟨"GET", "/a/{id}:run", none, []⟩ = .ok ()) ∧
    widens asciiClass (some (getScope "/{id}/{id}:run"))
      (some (getScope "/a/{id}:run")) = false ∧
    LetThrough asciiClass noChecks [("mail", getScope "/a/{id}:run")]
      (getCall ⟨["a", "b:run"], by decide⟩) ∧
    ¬ LetThrough asciiClass noChecks [("mail", getScope "/{id}/{id}:run")]
      (getCall ⟨["a", "b:run"], by decide⟩) := by
  refine ⟨⟨rfl, rfl⟩, by decide, ⟨⟨some "a/b:run", rfl⟩, rfl⟩, fun h => ?_⟩
  have hrefused : checkInputs asciiClass noChecks
      [("mail", getScope "/{id}/{id}:run")] (getCall ⟨["a", "b:run"], by decide⟩) =
        .error (.inputs none) := rfl
  have hok := h.2
  rw [hrefused] at hok
  cases hok

end

end NyxId.OperationScope
