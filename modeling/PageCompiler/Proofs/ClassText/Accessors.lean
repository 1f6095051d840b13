import PageCompiler.ClassText.Custom
import PageCompiler.Proofs.ClassText.Actions
import PageCompiler.Proofs.ClassText.Identifiers
import PageCompiler.Text.Letters

-- They are named for what they set or get, with a capital letter at the front. The name is made an
-- identifier first, so that a reserved word keeps the underscore that it gets as an identifier of
-- its own, and the method is one that the handler or the bean does not have.
namespace PageCompiler.ClassText

open Text

-- A letter, with letters, digits and underscores behind it.
def isPropertyName (name : String) : Bool :=
  match name.toList with
  | [] => false
  | c :: rest => c.isAlpha && rest.all isIdentifierChar

def upperFirst (name : String) : String :=
  match name.toList with
  | [] => ""
  | c :: rest => String.ofList (c.toUpper :: rest)

theorem capitalize_eq (name : String) : capitalize name = upperFirst (identifier name) := by
  unfold capitalize upperFirst
  rfl

theorem isPropertyName_iff {name : String} :
    isPropertyName name = true ↔ ∃ c rest, name.toList = c :: rest ∧ c.isAlpha = true ∧
      ∀ d ∈ rest, isIdentifierChar d = true := by
  unfold isPropertyName
  cases name.toList with
  | nil => simp
  | cons c rest => simp

theorem isWritten_of_isPropertyName {name : String} (h : isPropertyName name = true) :
    isWritten name.toList = true := by
  obtain ⟨c, rest, hname, hc, hrest⟩ := isPropertyName_iff.mp h
  refine isWritten_iff.mpr ⟨by simp [hname], by simp [hname, not_isDigit_of_isAlpha hc], ?_⟩
  rw [hname, List.forall_mem_cons]
  exact ⟨by simp [isIdentifierChar, Char.isAlphanum, hc], hrest⟩

theorem upperFirst_append {name : String} (h : name.toList ≠ []) (more : String) :
    upperFirst (name ++ more) = upperFirst name ++ more := by
  obtain ⟨c, rest, hname⟩ := List.exists_cons_of_ne_nil h
  rw [← String.toList_inj, String.toList_append]
  simp only [upperFirst, String.toList_append, hname, List.cons_append, String.toList_ofList]

-- The method of a bean or of a handler for one of its properties.
def accessor (verb name : String) : String := verb ++ upperFirst name

theorem append_capitalize {name : String} (h : isPropertyName name = true) (verb : String) :
    verb ++ capitalize name = accessor verb name ++ if name ∈ reservedWords then "_" else "" := by
  obtain ⟨c, rest, hname, -⟩ := isPropertyName_iff.mp h
  have hne : name.toList ≠ [] := hname ▸ List.cons_ne_nil c rest
  rw [capitalize_eq, identifier_of_isWritten (isWritten_of_isPropertyName h),
    upperFirst_append hne, accessor, String.append_assoc]

theorem append_capitalize_eq_iff {name : String} (h : isPropertyName name = true) (verb : String) :
    verb ++ capitalize name = accessor verb name ↔ name ∉ reservedWords := by
  rw [append_capitalize h]
  split_ifs with hreserved
  · refine iff_of_false (fun heq => ?_) (not_not_intro hreserved)
    have hlength := congrArg String.length heq
    rw [String.length_append] at hlength
    exact absurd hlength (by simp)
  · rw [String.append_empty]
    exact iff_of_true rfl hreserved

section

variable {x : Context} {s s' : State}

-- A line that sets an attribute of a handler by a method.
def SetsBy (handler method : String) (line : Line) : Prop :=
  ∃ value, line = .plain (.set handler method value)

-- Each attribute of a handler is set by a line of its own.
theorem setters_run {body : BodyGen} {scope : Scope} {f : Finding} {handler : String}
    {kind : HandlerKind} {lines : List Line}
    (h : setters x body scope f handler kind s = .ok (lines, s')) :
    List.Forall₂ (fun a line => a.dynamic = false → SetsBy handler (setterName a.name) line)
      f.attributes lines := by
  refine (forall₂_of_mapM_run h).imp fun a line ⟨s₁, s₂, hrun⟩ hstatic => ?_
  obtain ⟨value, s₃, -, hrun⟩ := bind_run_eq_ok.mp hrun
  rw [hstatic, if_neg Bool.false_ne_true] at hrun
  exact ⟨value, congrArg Prod.fst (pure_run_eq_ok.mp hrun)⟩

theorem SetsBy.method_eq_iff {handler method method' : String} {line : Line}
    (h : SetsBy handler method line) : SetsBy handler method' line ↔ method = method' := by
  obtain ⟨value, rfl⟩ := h
  refine ⟨?_, ?_⟩
  · rintro ⟨value', heq⟩
    injections
  · rintro rfl
    exact ⟨value, rfl⟩

-- A property of a bean, got by a method of its class and written into the page.
def getterCode (mark : Mark) (className bean method : String) : Code :=
  [Stretch.forMark mark [.code ("out.write(" ++ Names.runtime ++ ".toString(" ++ ("(((" ++
    className ++ ") " ++ lookupBean bean ++ ")." ++ method ++ "())") ++ "));")]]

theorem getterCode_inj {mark : Mark} {className bean method method' : String} :
    getterCode mark className bean method = getterCode mark className bean method' ↔
      method = method' := by
  simp only [getterCode, Stretch.forMark, Line.code, List.cons.injEq, Stretch.mk.injEq,
    Line.plain.injEq, Statement.code.injEq, String.append_left_inj, String.append_right_inj,
    and_true]

def beanName (f : Finding) : String := (literalOf f "name").getD ""

def propertyName (f : Finding) : String := (literalOf f "property").getD ""

theorem getPropertyCode_of_class {id : NodeId} {className : String}
    (h : x.checked.beans.classOf? (beanName (x.finding id)) = some className) :
    getPropertyCode x id s = .ok (getterCode (x.tree.mark id) className (beanName (x.finding id))
      (getterName (propertyName (x.finding id))), s) := by
  unfold beanName at h
  unfold getPropertyCode
  rw [h]
  rfl

end

-- Handlers are given attributes and beans are asked for properties by the methods that they have,
-- but for names that are reserved words. The methods that are called for those end in an
-- underscore.
theorem accessors_iff {name : String} (hname : isPropertyName name = true) :
    setterName name = accessor "set" name ++ (if name ∈ reservedWords then "_" else "") ∧
      getterName name = accessor "get" name ++ (if name ∈ reservedWords then "_" else "") ∧
      (∀ x body scope f handler kind s lines s',
        setters x body scope f handler kind s = .ok (lines, s') →
          List.Forall₂ (fun a line => a.dynamic = false → a.name = name →
            (SetsBy handler (accessor "set" name) line ↔ name ∉ reservedWords))
              f.attributes lines) ∧
      ∀ x id className s, x.checked.beans.classOf? (beanName (x.finding id)) = some className →
        propertyName (x.finding id) = name →
          ∃ code, getPropertyCode x id s = .ok (code, s) ∧
            (code = getterCode (x.tree.mark id) className (beanName (x.finding id))
              (accessor "get" name) ↔ name ∉ reservedWords) := by
  refine ⟨append_capitalize hname "set", append_capitalize hname "get", ?_, ?_⟩
  · intro x body scope f handler kind s lines s' hrun
    refine (setters_run hrun).imp fun a line hset hstatic heq => ?_
    subst heq
    exact (hset hstatic).method_eq_iff.trans (append_capitalize_eq_iff hname "set")
  · intro x id className s hclass heq
    subst heq
    exact ⟨_, getPropertyCode_of_class hclass,
      getterCode_inj.trans (append_capitalize_eq_iff hname "get")⟩

-- A bean of the class `T` that is asked for a property.
def asking (property : String) : Context :=
  let literal (name value : String) : ResolvedAttribute :=
    { name, qualifiedName := name, value := .literal value, mark := .start "/main.page"
      contract := none, dynamic := false }
  let finding : Finding := { attributes := [literal "name" "b", literal "property" property] }
  { options := {}
    checked := { (default : CheckedPage) with
      beans := ⟨[("b", "T")]⟩
      findings := ⟨#[finding]⟩ } }

-- An underscore inside a name is kept. A reserved word gets one, and the bean has no such method.
theorem accessors_iff_sample :
    setterName "user_id" = "setUser_id" ∧ getterName "class" = "getClass_" ∧
      ∃ code, getPropertyCode (asking "class") 0 {} = .ok (code, {}) ∧
        code ≠ getterCode ((asking "class").tree.mark 0) "T" "b" "getClass" := by
  have huser := @accessors_iff "user_id" (by decide +kernel)
  have hclass := @accessors_iff "class" (by decide +kernel)
  refine ⟨huser.1.trans (by decide +kernel), hclass.2.1.trans (by decide +kernel), ?_⟩
  obtain ⟨code, hrun, hiff⟩ := hclass.2.2.2 (asking "class") 0 "T" {} (by decide +kernel)
    (by decide +kernel)
  have hmethod : accessor "get" "class" = "getClass" := by decide +kernel
  have hbean : beanName ((asking "class").finding 0) = "b" := by decide +kernel
  rw [hmethod, hbean] at hiff
  exact ⟨code, hrun, fun heq => absurd (hiff.mp heq) (by decide +kernel)⟩

end PageCompiler.ClassText
