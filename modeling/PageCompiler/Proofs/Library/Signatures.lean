import PageCompiler.Proofs.Checking.Contracts
import PageCompiler.Proofs.ClassText.Generation
import PageCompiler.Proofs.Library.TagRules

namespace PageCompiler

namespace Text

variable {d : Char} {s before behind : List Char}

theorem splitOnce?_eq_none_iff : splitOnce? d s = none ↔ d ∉ s := by
  induction s with
  | nil => simp [splitOnce?]
  | cons c s ih =>
    by_cases hc : c = d
    · simp [splitOnce?, hc]
    · simp [splitOnce?, hc, ih, Ne.symm hc]

theorem splitOnce?_eq_some_iff :
    splitOnce? d s = some (before, behind) ↔ s = before ++ d :: behind ∧ d ∉ before := by
  induction s generalizing before with
  | nil => simp [splitOnce?]
  | cons c s ih =>
    by_cases hc : c = d
    · subst hc
      cases before with
      | nil => simp [splitOnce?]
      | cons e before =>
        simp only [splitOnce?, if_true, Option.some.injEq, Prod.mk.injEq, List.cons_append,
          List.cons.injEq, List.mem_cons, not_or]
        refine ⟨?_, ?_⟩
        · rintro ⟨h, -⟩
          cases h
        · rintro ⟨⟨rfl, -⟩, hne, -⟩
          exact absurd rfl hne
    · simp only [splitOnce?, if_neg hc, Option.map_eq_some_iff, Prod.mk.injEq, Prod.exists]
      constructor
      · rintro ⟨before, behind, hcut, rfl, rfl⟩
        obtain ⟨rfl, hnot⟩ := ih.mp hcut
        exact ⟨rfl, by simpa using ⟨Ne.symm hc, hnot⟩⟩
      · rintro ⟨hs, hnot⟩
        cases before with
        | nil => exact absurd (List.cons.inj hs).1 hc
        | cons e before =>
          obtain ⟨rfl, rfl⟩ := List.cons.inj hs
          have hbefore : d ∉ before := fun hmem => hnot (List.mem_cons_of_mem _ hmem)
          exact ⟨before, behind, ih.mpr ⟨rfl, hbefore⟩, rfl, rfl⟩

theorem splitLast?_eq_none_iff : splitLast? d s = none ↔ d ∉ s := by
  rw [splitLast?, Option.map_eq_none_iff, splitOnce?_eq_none_iff, List.mem_reverse]

theorem splitLast?_eq_some_iff :
    splitLast? d s = some (before, behind) ↔ s = before ++ d :: behind ∧ d ∉ behind := by
  have hreverse : splitLast? d s = some (before, behind) ↔
      splitOnce? d s.reverse = some (behind.reverse, before.reverse) := by
    simp [splitLast?, Prod.ext_iff, List.reverse_eq_iff, and_comm]
  rw [hreverse, splitOnce?_eq_some_iff, List.mem_reverse, List.reverse_eq_iff]
  simp

end Text

open Text

namespace Signature

section

variable {s inside : List Char}

-- The text between the first opening and the last closing parenthesis.
def Encloses (s inside : List Char) : Prop :=
  ∃ before behind, s = before ++ '(' :: (inside ++ ')' :: behind) ∧ '(' ∉ before ∧ ')' ∉ behind

-- The text behind the first opening parenthesis, when no other one closes.
def Opens (s inside : List Char) : Prop :=
  ∃ before, s = before ++ '(' :: inside ∧ '(' ∉ before ∧ ')' ∉ s

-- The last closing parenthesis stands in front of the first opening one.
def Crossed (s : List Char) : Prop :=
  ∃ before behind, s = before ++ '(' :: behind ∧ '(' ∉ before ∧ ')' ∈ before ∧ ')' ∉ behind

-- What is told of the parameters in each of the cases.
inductive Tells (ifOpen : List Char → List String) (s : List Char) : Option (List String) → Prop
  | bare (h : '(' ∉ s) : Tells ifOpen s (some [])
  | enclosed {inside : List Char} (h : Encloses s inside) : Tells ifOpen s (some (typeList inside))
  | opened {inside : List Char} (h : Opens s inside) : Tells ifOpen s (some (ifOpen inside))
  | crossed (h : Crossed s) : Tells ifOpen s none

theorem tells_enclosed? (ifOpen : List Char → List String) (s : List Char) :
    Tells ifOpen s (enclosed? s ifOpen) := by
  unfold enclosed?
  split
  · rename_i hsplit
    exact .bare (splitOnce?_eq_none_iff.mp hsplit)
  · rename_i before behind hsplit
    obtain ⟨hs, hbefore⟩ := splitOnce?_eq_some_iff.mp hsplit
    split
    · rename_i inside rest hlast
      obtain ⟨rfl, hrest⟩ := splitLast?_eq_some_iff.mp hlast
      exact .enclosed ⟨before, rest, hs, hbefore, hrest⟩
    · rename_i hlast
      have hbehind := splitLast?_eq_none_iff.mp hlast
      split
      · rename_i hcrossed
        exact .crossed ⟨before, behind, hs, hbefore, by simpa using hcrossed, hbehind⟩
      · rename_i huncrossed
        refine .opened ⟨before, hs, hbefore, ?_⟩
        rw [hs]
        simpa using ⟨by simpa using huncrossed, hbehind⟩

theorem Crossed.splitOnce? (h : Crossed s) :
    ∃ before behind, Text.splitOnce? '(' s = some (before, behind) ∧ ')' ∈ before ∧ ')' ∉ behind := by
  obtain ⟨before, behind, hs, hbefore, hclosing, hbehind⟩ := h
  exact ⟨before, behind, splitOnce?_eq_some_iff.mpr ⟨hs, hbefore⟩, hclosing, hbehind⟩

-- In no other case there is nothing to tell.
theorem enclosed?_eq_none_iff {ifOpen : List Char → List String} :
    enclosed? s ifOpen = none ↔ Crossed s := by
  constructor
  · intro h
    have htells := tells_enclosed? ifOpen s
    rw [h] at htells
    cases htells with
    | crossed hcrossed => exact hcrossed
  · intro h
    obtain ⟨before, behind, hsplit, hclosing, hbehind⟩ := h.splitOnce?
    rw [enclosed?, hsplit]
    simp [splitLast?_eq_none_iff.mpr hbehind, hclosing]

end
end Signature

open Signature

theorem Function.tells_parameterTypes? (f : Function) :
    Tells typeList f.signature.toList f.parameterTypes? :=
  tells_enclosed? _ _

theorem Function.parameterTypes?_eq_none_iff {f : Function} :
    f.parameterTypes? = none ↔ Crossed f.signature.toList :=
  enclosed?_eq_none_iff

theorem AttributeContract.tells_parameterTypes? {a : AttributeContract} {signature : String}
    (h : a.methodSignature = some signature) :
    Tells (fun _ => []) signature.toList a.parameterTypes? := by
  rw [parameterTypes?, h]
  exact tells_enclosed? _ _

theorem AttributeContract.parameterTypes?_eq_none_iff {a : AttributeContract} :
    a.parameterTypes? = none ↔
      ∃ signature, a.methodSignature = some signature ∧ Crossed signature.toList := by
  rw [parameterTypes?]
  cases a.methodSignature with
  | none => simp
  | some signature =>
    have hcrossed : Signature.methodParameters? signature = none ↔ Crossed signature.toList :=
      enclosed?_eq_none_iff
    simpa using hcrossed

namespace Descriptor

-- All that is asked of the signature of a function.
theorem functions_addFunctions {l l' : Library} {functions : List Function}
    (h : addFunctions l functions = .ok l') :
    ∀ f ∈ l'.functions, f ∈ l.functions ∨ f ∈ functions ∧ '(' ∈ f.signature.toList := by
  induction functions generalizing l with
  | nil =>
    cases h
    exact fun f hf => .inl hf
  | cons g rest ih =>
    unfold addFunctions at h
    split at h
    · rename_i hopening
      intro f hf
      rcases ih h f hf with hold | ⟨hrest, hf⟩
      · rcases List.mem_append.mp hold with hkept | hnew
        · exact .inl (List.mem_filter.mp hkept).1
        · rw [List.mem_singleton.mp hnew]
          exact .inr ⟨List.mem_cons_self .., by simpa using hopening⟩
      · exact .inr ⟨List.mem_cons_of_mem _ hrest, hf⟩
    · cases h

theorem functions_addTags {l l' : Library} {tags : List TagDescriptor}
    (h : addTags l tags = .ok l') : l'.functions = l.functions := by
  induction tags generalizing l with
  | nil =>
    cases h
    rfl
  | cons t rest ih =>
    unfold addTags at h
    split at h
    · cases h
    · obtain ⟨_, -, h⟩ := Checking.bind_eq_ok.mp h
      obtain ⟨_, -, h⟩ := Checking.bind_eq_ok.mp h
      exact (ih h).trans rfl

theorem functions_toLibrary {d : Descriptor} {origin : Option String} {l : Library}
    (h : d.toLibrary origin = .ok l) :
    ∀ f ∈ l.functions, f ∈ d.functions ∧ '(' ∈ f.signature.toList := by
  unfold toLibrary at h
  dsimp only at h
  cases htagged : addTags { uri := d.uri, shortName := d.shortName, origin } d.tags with
  | error reason =>
    rw [htagged] at h
    cases h
  | ok tagged =>
    cases hbuilt : addFunctions tagged d.functions with
    | error reason =>
      simp only [Bind.bind, Except.bind, htagged, hbuilt] at h
      cases h
    | ok built =>
      simp only [Bind.bind, Except.bind, htagged, hbuilt] at h
      cases h
      intro f hf
      rcases functions_addFunctions hbuilt f hf with hold | hnew
      · rw [functions_addTags htagged] at hold
        cases hold
      · exact hnew

end Descriptor

namespace Checking

variable {x : Context} {mark : Mark} {call : FunctionUse} {signature : String}

-- The function that a call stands for.
def Calls (x : Context) (call : FunctionUse) (f : Function) : Prop :=
  ∃ space library, call.space = some space ∧ x.bindings.library? space = some library ∧
    library.function? call.name = some f

theorem fail_inj {fault fault' : Fault} {α : Type}
    (h : (x.fail fault mark : Except Diagnostic α) = x.fail fault' mark) : fault = fault' := by
  have hplace : ∀ f : Fault, (x.tree.fault "validate" f mark).fault = f := by
    intro f
    unfold Tree.fault Diagnostic.place
    split <;> rfl
  rw [← hplace fault, ← hplace fault', Except.error.inj h]

-- A call comes to a crossed signature exactly when it is one of the function that has it.
theorem checkFunction_eq_crossed_iff :
    checkFunction x mark call = x.fail (.crossedParentheses signature) mark ↔
      ∃ f, Calls x call f ∧ f.signature = signature ∧ Crossed signature.toList := by
  constructor
  · intro h
    unfold checkFunction at h
    dsimp only at h
    split at h
    · cases fail_inj h
    · rename_i space hspace
      split at h
      · cases fail_inj h
      · rename_i f hf
        obtain ⟨library, hlibrary, hf⟩ := Option.bind_eq_some_iff.mp hf
        split at h
        · rename_i hnone
          cases fail_inj h
          exact ⟨f, ⟨space, library, hspace, hlibrary, hf⟩, rfl,
            Function.parameterTypes?_eq_none_iff.mp hnone⟩
        · split at h
          · cases h
          · cases fail_inj h
  · rintro ⟨f, ⟨space, library, hspace, hlibrary, hf⟩, rfl, hcrossed⟩
    unfold checkFunction
    simp only [hspace, hlibrary, Option.bind_some, hf,
      Function.parameterTypes?_eq_none_iff.mpr hcrossed]

-- The first call that is refused decides.
theorem forM_eq_error_iff {α ε : Type} {f : α → Except ε PUnit} {l : List α} {e : ε} :
    l.forM f = .error e ↔ ∃ before a behind, l = before ++ a :: behind ∧
      (∀ b ∈ before, f b = .ok ()) ∧ f a = .error e := by
  induction l with
  | nil =>
    refine ⟨fun h => (nomatch h), ?_⟩
    rintro ⟨before, a, behind, h, -⟩
    simp at h
  | cons c l ih =>
    have hstep : (c :: l).forM f = f c >>= fun _ => l.forM f := rfl
    rw [hstep]
    cases hc : f c with
    | error e' =>
      constructor
      · rintro ⟨⟩
        exact ⟨[], c, l, rfl, nofun, hc⟩
      · rintro ⟨before, a, behind, h, hbefore, ha⟩
        cases before with
        | nil =>
          obtain ⟨rfl, -⟩ := List.cons.inj h
          rw [← ha, hc]
          rfl
        | cons b before =>
          obtain ⟨rfl, -⟩ := List.cons.inj h
          rw [hbefore c (List.mem_cons_self ..)] at hc
          cases hc
    | ok _ =>
      refine Iff.trans ih ?_
      constructor
      · rintro ⟨before, a, behind, rfl, hbefore, ha⟩
        exact ⟨c :: before, a, behind, rfl, List.forall_mem_cons.mpr ⟨hc, hbefore⟩, ha⟩
      · rintro ⟨before, a, behind, h, hbefore, ha⟩
        cases before with
        | nil =>
          obtain ⟨rfl, -⟩ := List.cons.inj h
          rw [ha] at hc
          cases hc
        | cons b before =>
          obtain ⟨rfl, rfl⟩ := List.cons.inj h
          exact ⟨before, a, behind, rfl, fun b hb => hbefore b (List.mem_cons_of_mem _ hb), ha⟩

theorem checkFunctions_eq_crossed_iff {calls : List FunctionUse} :
    checkFunctions x calls mark = x.fail (.crossedParentheses signature) mark ↔
      ∃ before call behind f, calls = before ++ call :: behind ∧
        (∀ c ∈ before, checkFunction x mark c = .ok ()) ∧ Calls x call f ∧
          f.signature = signature ∧ Crossed signature.toList := by
  have herror : ∀ c, checkFunction x mark c =
      .error (x.tree.fault "validate" (.crossedParentheses signature) mark) ↔
        ∃ f, Calls x c f ∧ f.signature = signature ∧ Crossed signature.toList :=
    fun _ => checkFunction_eq_crossed_iff
  rw [checkFunctions, Context.fail, forM_eq_error_iff]
  simp only [herror]
  constructor
  · rintro ⟨before, call, behind, hcalls, hbefore, f, hf⟩
    exact ⟨before, call, behind, f, hcalls, hbefore, hf⟩
  · rintro ⟨before, call, behind, f, hcalls, hbefore, hf⟩
    exact ⟨before, call, behind, hcalls, hbefore, f, hf⟩

end Checking

namespace ClassText

-- The generator cannot tell the parameters of a method that a custom action takes exactly when one
-- of the attributes that its tag declares has a crossed signature and is given in the tag.
theorem not_legible_iff {x : Context} {id : NodeId}
    (h : ∀ data, x.tree.kind id = .custom data →
      ∀ a ∈ (x.finding id).attributes, Checking.Conforms data.tag a) :
    ¬Legible x id ↔ ∃ data a contract signature, x.tree.kind id = .custom data ∧
      a ∈ (x.finding id).attributes ∧ contract ∈ data.tag.attributes ∧ methodOf? a = some contract ∧
        contract.methodSignature = some signature ∧ Crossed signature.toList := by
  unfold Legible
  constructor
  · intro hnot
    push Not at hnot
    obtain ⟨data, hk, a, ha, contract, hmethod, hnone⟩ := hnot
    have hnone : contract.parameterTypes? = none := by simpa using hnone
    obtain ⟨signature, hsignature, hcrossed⟩ :=
      AttributeContract.parameterTypes?_eq_none_iff.mp hnone
    have hcontract : a.contract = some contract := by
      unfold methodOf? at hmethod
      split at hmethod
      · exact (Option.filter_eq_some_iff.mp hmethod).1
      · exact (Option.filter_eq_some_iff.mp hmethod).1
      · cases hmethod
      · cases hmethod
    rw [(h data hk a ha).1] at hcontract
    exact ⟨data, a, contract, signature, hk, ha, List.mem_of_find?_eq_some hcontract, hmethod,
      hsignature, hcrossed⟩
  · rintro ⟨data, a, contract, signature, hk, ha, -, hmethod, hsignature, hcrossed⟩ hall
    have hsome := hall data hk a ha contract hmethod
    rw [AttributeContract.parameterTypes?_eq_none_iff.mpr ⟨signature, hsignature, hcrossed⟩] at hsome
    cases hsome

end ClassText

open ClassText

-- A page that has passed all checks stops the generator exactly when there is such an action among
-- those that the generator comes to.
theorem CheckedPage.generate_eq_error_iff {o : Options} {loader : Loader}
    {resolver resolver' : Resolver} {name : String} {c : CheckedPage}
    (h : CheckedPage.ofUnit o loader resolver name = (.ok c, resolver')) :
    (∃ signature, c.generate o = .error (crossed signature)) ↔
      ∃ id data a contract signature, Visits ⟨o, c⟩ id ∧ c.page.tree.kind id = .custom data ∧
        a ∈ (c.findings.get id).attributes ∧ contract ∈ data.tag.attributes ∧
        methodOf? a = some contract ∧ contract.methodSignature = some signature ∧
        Crossed signature.toList := by
  have hcode := (annotated h).outcome_pageCode
  obtain ⟨hok, herror⟩ := generate_of_pageCode c o
  have hstops : (∃ signature, c.generate o = .error (crossed signature)) ↔
      ∃ id, Visits ⟨o, c⟩ id ∧ ¬Legible ⟨o, c⟩ id := by
    by_cases hall : ∀ id, Visits ⟨o, c⟩ id → Legible ⟨o, c⟩ id
    · obtain ⟨r, hr⟩ := hcode.ok hall {}
      obtain ⟨p, hp⟩ := hok hr
      simp only [hp, reduceCtorEq, exists_false, false_iff, not_exists, not_and, not_not]
      exact hall
    · obtain ⟨signature, hs⟩ := hcode.error hall {}
      push Not at hall
      exact iff_of_true ⟨signature, herror hs⟩ hall
  have hlegible : ∀ id, ¬Legible ⟨o, c⟩ id ↔ _ := fun id =>
    not_legible_iff (x := ⟨o, c⟩) fun data hk => (attributes_ofUnit h hk).2.2
  simp only [hstops, hlegible]
  constructor
  · rintro ⟨id, hid, data, a, contract, signature, hrest⟩
    exact ⟨id, data, a, contract, signature, hid, hrest⟩
  · rintro ⟨id, data, a, contract, signature, hid, hrest⟩
    exact ⟨id, hid, data, a, contract, signature, hrest⟩

-- The parameters of a function, or of a method, of a library that has been loaded are told unless
-- the last closing parenthesis of its signature stands in front of the first opening one. A
-- function call in a page fails its check for that exactly when it is the first one refused and is
-- a call of such a function, and the generator stops exactly at an action that is given such a
-- method.
theorem Descriptor.signatures_toLibrary {d : Descriptor} {origin : Option String} {l : Library}
    (h : d.toLibrary origin = .ok l) :
    (∀ f ∈ l.functions, '(' ∈ f.signature.toList ∧
      Tells typeList f.signature.toList f.parameterTypes? ∧
      (f.parameterTypes? = none ↔ Crossed f.signature.toList)) ∧
    (∀ t ∈ l.tags, ∀ a ∈ t.attributes,
      (∀ signature, a.methodSignature = some signature →
        Tells (fun _ => []) signature.toList a.parameterTypes?) ∧
      (a.methodSignature = none → a.parameterTypes? = some []) ∧
      (a.parameterTypes? = none ↔
        ∃ signature, a.methodSignature = some signature ∧ Crossed signature.toList)) ∧
    (∀ (x : Checking.Context) (mark : Mark) (calls : List FunctionUse) (signature : String),
      Checking.checkFunctions x calls mark = x.fail (.crossedParentheses signature) mark ↔
        ∃ before call behind f, calls = before ++ call :: behind ∧
          (∀ c ∈ before, Checking.checkFunction x mark c = .ok ()) ∧ Checking.Calls x call f ∧
            f.signature = signature ∧ Crossed signature.toList) ∧
    ∀ (o : Options) (loader : Loader) (resolver resolver' : Resolver) (name : String)
      (c : CheckedPage), CheckedPage.ofUnit o loader resolver name = (.ok c, resolver') →
        ((∃ signature, c.generate o = .error (crossed signature)) ↔
          ∃ id data a contract signature, Visits ⟨o, c⟩ id ∧ c.page.tree.kind id = .custom data ∧
            a ∈ (c.findings.get id).attributes ∧ contract ∈ data.tag.attributes ∧
            methodOf? a = some contract ∧ contract.methodSignature = some signature ∧
            Crossed signature.toList) := by
  refine ⟨fun f hf => ?_, fun t ht a ha => ?_, fun x mark calls signature => ?_, ?_⟩
  · obtain ⟨-, hopening⟩ := functions_toLibrary h f hf
    exact ⟨hopening, f.tells_parameterTypes?, Function.parameterTypes?_eq_none_iff⟩
  · refine ⟨fun _ => AttributeContract.tells_parameterTypes?, fun hnone => ?_,
      AttributeContract.parameterTypes?_eq_none_iff⟩
    rw [AttributeContract.parameterTypes?, hnone]
  · exact Checking.checkFunctions_eq_crossed_iff
  · intro o loader resolver resolver' name c hc
    exact CheckedPage.generate_eq_error_iff hc

-- A descriptor with a function and a method whose parentheses are crossed.
def crossedDescriptor : Descriptor :=
  { uri := "urn:sample", shortName := "sample"
    tags := [
      { name := "call", handlerClass := "sample.CallTag", bodyContent := .empty
        attributes := [
          { name := "method", deferredMethod := true
            methodSignature := some "java.lang.String run)(" }]
        exposed := [], dynamicAttributes := false, capabilities := {} }]
    functions := [
      { name := "length", className := "sample.Functions", signature := "int length)(" }] }

theorem Descriptor.signatures_toLibrary_crossed :
    ∃ l, crossedDescriptor.toLibrary none = .ok l ∧
      (∃ f ∈ l.functions, Crossed f.signature.toList ∧ f.parameterTypes? = none) ∧
      ∃ t ∈ l.tags, ∃ a ∈ t.attributes, a.parameterTypes? = none := by
  have hrun : (match crossedDescriptor.toLibrary none with
      | .ok l => l.functions.any (fun f => f.parameterTypes? == none) &&
          l.tags.any fun t => t.attributes.any fun a => a.methodSignature == some
            "java.lang.String run)("
      | .error _ => false) = true := by decide +kernel
  split at hrun
  · rename_i l h
    obtain ⟨hfunctions, htags, -⟩ := signatures_toLibrary h
    rw [Bool.and_eq_true, List.any_eq_true, List.any_eq_true] at hrun
    obtain ⟨⟨f, hf, hnone⟩, t, ht, hattributes⟩ := hrun
    obtain ⟨a, ha, hsignature⟩ := List.any_eq_true.mp hattributes
    have hnone : f.parameterTypes? = none := by simpa using hnone
    obtain ⟨-, -, hcrossed⟩ := htags t ht a ha
    have hmethod : Crossed "java.lang.String run)(".toList :=
      ⟨"java.lang.String run)".toList, [], by decide, by decide, by decide, by decide⟩
    exact ⟨l, h, ⟨f, hf, (hfunctions f hf).2.2.mp hnone, hnone⟩, t, ht, a, ha,
      hcrossed.mpr ⟨_, by simpa using hsignature, hmethod⟩⟩
  · cases hrun

end PageCompiler
