import PageCompiler.Proofs.ClassText.LineParts

-- A run turns the stretches that are held and those of its state into others: none is lost, and
-- every new one is made for a node of the page or for none at all.
namespace PageCompiler

open Text

-- The types an attribute's value is printed with.
def AttributeContract.types (c : AttributeContract) : List String :=
  c.typeName :: c.deferredValueType.toList ++ c.parameterTypes?.getD []

def ResolvedAttribute.verbatim (a : ResolvedAttribute) : List String :=
  (match a.value with
    | .scripting code => [trimmed code]
    | _ => []) ++ a.contract.toList.flatMap AttributeContract.types

def Finding.verbatim (f : Finding) : List String :=
  f.attributes.flatMap ResolvedAttribute.verbatim ++
    f.exposed.all.flatMap fun v => [v.name, v.className]

def Bindings.verbatim (b : Bindings) : List String :=
  b.libraries.flatMap fun (_, library) =>
    library.functions.flatMap fun f => f.className :: f.parameterTypes?.getD []

namespace ClassText

def nodeVerbatim (x : Context) (id : NodeId) : List String :=
  (x.finding id).verbatim ++
    match x.tree.kind id with
    | .custom data => [data.tag.handlerClass]
    | .useBean => ["id", "type", "class"].filterMap (literalOf (x.finding id))
    | _ => []

-- All texts of a checked page that lines of its class are made of without quoting them.
def verbatim (x : Context) : List String :=
  x.options.package :: x.settings.superclass.toList ++ x.settings.imports ++
    x.checked.beans.classes.map Prod.snd ++ x.checked.page.bindings.verbatim ++
    x.tree.preorder.flatMap (nodeVerbatim x)

-- None of them holds a line feed.
def Tidy (x : Context) : Prop := ∀ t ∈ verbatim x, Unbroken t

instance (x : Context) : Decidable (Tidy x) :=
  inferInstanceAs (Decidable (∀ t ∈ verbatim x, Unbroken t))

-- All lines stand on one line.
def Even (lines : List Line) : Prop := ∀ line ∈ lines, ∀ t ∈ line.parts, Unbroken t

section

variable {x : Context} {id : NodeId} {a : ResolvedAttribute}

theorem Tidy.node (h : Tidy x) (hid : id ∈ x.tree.preorder) {t : String}
    (ht : t ∈ nodeVerbatim x id) : Unbroken t :=
  h t (List.mem_append_right _ (List.mem_flatMap.mpr ⟨id, hid, ht⟩))

theorem Tidy.attribute (h : Tidy x) (hid : id ∈ x.tree.preorder)
    (ha : a ∈ (x.finding id).attributes) {t : String} (ht : t ∈ a.verbatim) : Unbroken t :=
  h.node hid (List.mem_append_left _ (List.mem_append_left _ (List.mem_flatMap.mpr ⟨a, ha, ht⟩)))

theorem Tidy.scripting (h : Tidy x) (hid : id ∈ x.tree.preorder)
    (ha : a ∈ (x.finding id).attributes) {code : String} (hv : a.value = .scripting code) :
    Unbroken (trimmed code) :=
  h.attribute hid ha (by simp [ResolvedAttribute.verbatim, hv])

theorem Tidy.types (h : Tidy x) (hid : id ∈ x.tree.preorder)
    (ha : a ∈ (x.finding id).attributes) {c : AttributeContract} (hc : a.contract = some c)
    {t : String} (ht : t ∈ c.types) : Unbroken t :=
  h.attribute hid ha (by simp [ResolvedAttribute.verbatim, hc, ht])

theorem Tidy.variable (h : Tidy x) (hid : id ∈ x.tree.preorder) {v : Variable}
    (hv : v ∈ (x.finding id).exposed.all) : Unbroken v.name ∧ Unbroken v.className := by
  have hmem : ∀ t ∈ [v.name, v.className], Unbroken t := fun t ht =>
    h.node hid (List.mem_append_left _ (List.mem_append_right _ (List.mem_flatMap.mpr ⟨v, hv, ht⟩)))
  exact ⟨hmem _ (by simp), hmem _ (by simp)⟩

theorem Tidy.handlerClass (h : Tidy x) (hid : id ∈ x.tree.preorder) {data : CustomAction}
    (hk : x.tree.kind id = .custom data) : Unbroken data.tag.handlerClass :=
  h.node hid (by simp [nodeVerbatim, hk])

theorem Tidy.bean (h : Tidy x) (hid : id ∈ x.tree.preorder) (hk : x.tree.kind id = .useBean)
    {name t : String} (hname : name ∈ ["id", "type", "class"])
    (ht : literalOf (x.finding id) name = some t) : Unbroken t := by
  refine h.node hid (List.mem_append_right _ ?_)
  rw [hk]
  exact List.mem_filterMap.mpr ⟨name, hname, ht⟩

theorem Tidy.package (h : Tidy x) : Unbroken x.options.package :=
  h _ (by simp [verbatim])

theorem Tidy.superclass (h : Tidy x) {t : String} (ht : x.settings.superclass = some t) :
    Unbroken t :=
  h t (by simp [verbatim, ht])

theorem Tidy.import (h : Tidy x) {t : String} (ht : t ∈ x.settings.imports) : Unbroken t :=
  h t (by simp [verbatim, ht])

theorem Tidy.function (h : Tidy x) {key : String} {library : Library} {f : Function}
    (hl : (key, library) ∈ x.checked.page.bindings.libraries) (hf : f ∈ library.functions)
    {t : String} (ht : t ∈ f.className :: f.parameterTypes?.getD []) : Unbroken t :=
  h t (List.mem_append_left _ (List.mem_append_right _
    (List.mem_flatMap.mpr ⟨_, hl, List.mem_flatMap.mpr ⟨f, hf, ht⟩⟩)))

theorem Tidy.beanClass (h : Tidy x) {name className : String}
    (hc : x.checked.beans.classOf? name = some className) : Unbroken className := by
  refine h className (List.mem_append_left _ (List.mem_append_left _ (List.mem_append_right _ ?_)))
  obtain ⟨before, behind, heq, -⟩ := List.lookup_eq_some_iff.mp hc
  rw [heq]
  simp

end

theorem Even.unbroken {lines : List Line} (h : Even lines) : ∀ line ∈ lines, Unbroken line.text :=
  fun line hline => Line.unbroken (h line hline)

theorem even_nil : Even [] := fun _ h => nomatch h

theorem even_cons {l : Line} {lines : List Line} :
    Even (l :: lines) ↔ (∀ t ∈ l.parts, Unbroken t) ∧ Even lines := List.forall_mem_cons

theorem even_append {l l' : List Line} : Even (l ++ l') ↔ Even l ∧ Even l' :=
  List.forall_mem_append

theorem even_flatten {parts : List (List Line)} : Even parts.flatten ↔ ∀ l ∈ parts, Even l := by
  simp only [Even, List.mem_flatten, forall_exists_index, and_imp]
  exact ⟨fun h l hl line hline => h line l hl hline, fun h line l hl hline => h l hl line hline⟩

theorem even_onlyIf {holds : Bool} {l : List Line} (h : Even l) : Even (onlyIf holds l) := by
  cases holds with
  | true => exact h
  | false => exact even_nil

theorem even_code {t : String} {lines : List Line} :
    Even (.code t :: lines) ↔ Unbroken t ∧ Even lines := by
  rw [even_cons]
  simp [Line.code, Line.parts, Statement.parts]

theorem even_block {t : String} {lines : List Line} :
    Even (.block t :: lines) ↔ Unbroken t ∧ Even lines := by
  rw [even_cons]
  simp [Line.block, Line.parts, Head.parts]

theorem even_close {lines : List Line} : Even (.close :: lines) ↔ Even lines := by
  rw [even_cons]
  simp only [Line.close, Line.parts, List.forall_mem_singleton]
  exact and_iff_right (.literal rfl)

-- Text, expressions and raw code.
def isContent : NodeKind → Bool
  | .text _ | .insert _ | .script .. => true
  | _ => false

def scriptStretches (kind : ScriptKind) (mark : Mark) (code : String) : Code :=
  match kind with
  | .expression => printCode mark code
  | .declaration | .scriptlet => codeLines mark code

-- A stretch that is made for a node: what the node itself says, or what an action adds around the
-- content that it has.
inductive Own (x : Context) (id : NodeId) : Stretch → Prop
  | text {run : TextRun} {lines : List Line} {s s' : State} (hk : x.tree.kind id = .text run)
      (hlines : writeLiteral x run.text s = .ok (lines, s')) :
      Own x id ⟨lines, (x.tree.mark id).unit, coveredLines (x.tree.mark id) run⟩
  | script {kind : ScriptKind} {script : Script} {stretch : Stretch}
      (hk : x.tree.kind id = .script kind script)
      (hmem : stretch ∈ scriptStretches kind (x.tree.mark id) (x.tree.scriptText id)) :
      Own x id stretch
  | insert {data : Insert} {stretch : Stretch} {s s' : State} (hk : x.tree.kind id = .insert data)
      (hrun : insertCode x (x.tree.mark id) data s = .ok ([stretch], s')) : Own x id stretch
  | action (hk : isContent (x.tree.kind id) = false) (lines : List Line) :
      Own x id (.forMark (x.tree.mark id) lines)

-- Made for a node of the page or not recorded at all; and on lines of its own, if the page lets it.
structure Owned (x : Context) (stretch : Stretch) : Prop where
  owner : stretch.sources = [] ∨ ∃ id ∈ x.tree.preorder, Own x id stretch
  even : Tidy x → Even stretch.lines

theorem Owned.plain {x : Context} {lines : List Line} (h : Tidy x → Even lines) :
    Owned x (.plain lines) := ⟨.inl rfl, h⟩

theorem Owned.forMark {x : Context} {id : NodeId} {lines : List Line} (hid : id ∈ x.tree.preorder)
    (hk : isContent (x.tree.kind id) = false) (h : Tidy x → Even lines) :
    Owned x (.forMark (x.tree.mark id) lines) := ⟨.inr ⟨id, hid, .action hk lines⟩, h⟩

-- The source line at which what a node says begins.
def firstLine (x : Context) (id : NodeId) : Nat :=
  match x.tree.kind id with
  | .text run => (x.tree.mark id).line + run.leadingLines
  | _ => (x.tree.mark id).line

-- Text, expressions and raw code that are not blank, for which there have to be lines. Text behind
-- a directive may be left out.
def Speaks (x : Context) (id : NodeId) : Prop :=
  match x.tree.kind id with
  | .text run => run.text ≠ "" ∧ isDirectiveBlank x id = false
  | .insert _ => True
  | .script .. => blank (x.tree.scriptText id) = false
  | _ => False

-- Among the stretches is one with the beginning of what a node says.
def Presents (x : Context) (id : NodeId) (code : Code) : Prop :=
  ∃ stretch ∈ code, Own x id stretch ∧ stretch.lines ≠ [] ∧ firstLine x id ∈ stretch.sources

namespace State

-- Every stretch that a state has collected.
def stretches (s : State) : Code :=
  s.declarations ++ s.methods.flatten ++ s.deferred.flatMap fun code => code.getD []

-- The names it has collected stand on one line.
structure Regular (s : State) : Prop where
  temporaries : ∀ entry ∈ s.temporaries.named, Unbroken entry.2
  pools : ∀ pool ∈ s.pools, Unbroken pool

-- Nothing but fields, names and variables has changed.
structure Quiet (s s' : State) : Prop where
  declarations : s'.declarations = s.declarations
  methods : s'.methods = s.methods
  deferred : s'.deferred = s.deferred
  regular : s.Regular → s'.Regular

theorem Quiet.refl (s : State) : Quiet s s := ⟨rfl, rfl, rfl, fun h => h⟩

theorem Quiet.trans {s s' s'' : State} (h : Quiet s s') (h' : Quiet s' s'') : Quiet s s'' :=
  ⟨h'.declarations.trans h.declarations, h'.methods.trans h.methods, h'.deferred.trans h.deferred,
    fun hs => h'.regular (h.regular hs)⟩

theorem Quiet.stretches {s s' : State} (h : Quiet s s') : s'.stretches = s.stretches := by
  rw [State.stretches, h.declarations, h.methods, h.deferred]
  rfl

end State

-- From the stretches that are held in front of a run to those that are held behind it. If the node
-- in question is among those that the run comes to, then it is among those presented.
structure Made (x : Context) (n : NodeId) (reached : Prop) (held : Code) (s : State)
    (code : Code) (s' : State) : Prop where
  regular : s'.Regular
  deferred : s.deferred <+: s'.deferred
  kept : held ++ s.stretches ⊆ code ++ s'.stretches
  made : ∀ stretch ∈ code ++ s'.stretches, stretch ∈ held ++ s.stretches ∨ Owned x stretch
  present : reached → Presents x n (code ++ s'.stretches)

-- Every run of a program does so, and gives what is good as long as the page is tidy.
def Makes (x : Context) (n : NodeId) (reached : Prop) (held : Code) {α : Type} (m : GenM α)
    (out : α → Code) (good : α → Prop) : Prop :=
  ∀ s s' a, s.Regular → m s = .ok (a, s') → Made x n reached held s (out a) s' ∧ (Tidy x → good a)

-- A program that makes no stretches.
def Gives (x : Context) {α : Type} (m : GenM α) (good : α → Prop) : Prop :=
  ∀ s s' a, s.Regular → m s = .ok (a, s') → s.Quiet s' ∧ (Tidy x → good a)

section

variable {x : Context} {n : NodeId} {reached reached' : Prop} {held code code' : Code}
  {s s₁ s' : State}

theorem Presents.mono (h : Presents x n code) (hsub : code ⊆ code') : Presents x n code' := by
  obtain ⟨stretch, hmem, hown⟩ := h
  exact ⟨stretch, hsub hmem, hown⟩

namespace Made

-- A node adds stretches of its own, to those that are given or to those of the state.
theorem of_mem (hregular : s'.Regular) (hdeferred : s.deferred <+: s'.deferred) (own : Code)
    (hmem : ∀ stretch, stretch ∈ code ++ s'.stretches ↔
      stretch ∈ held ++ s.stretches ∨ stretch ∈ own)
    (hown : ∀ stretch ∈ own, Owned x stretch) (hpresent : reached → Presents x n own) :
    Made x n reached held s code s' where
  regular := hregular
  deferred := hdeferred
  kept stretch h := (hmem stretch).mpr (.inl h)
  made stretch h := ((hmem stretch).mp h).imp_right (hown stretch)
  present hreached := (hpresent hreached).mono fun stretch h => (hmem stretch).mpr (.inr h)

theorem of_quiet (hs : s.Regular) (h : s.Quiet s') : Made x n False held s held s' :=
  .of_mem (h.regular hs) (h.deferred ▸ List.prefix_refl _) [] (by simp [h.stretches]) (by simp)
    False.elim

theorem trans (h : Made x n reached held s code s₁) (h' : Made x n reached' code s₁ code' s') :
    Made x n (reached ∨ reached') held s code' s' where
  regular := h'.regular
  deferred := h.deferred.trans h'.deferred
  kept := List.Subset.trans h.kept h'.kept
  made stretch hmem := (h'.made stretch hmem).elim (h.made stretch) .inr
  present hreached := hreached.elim (fun hr => (h.present hr).mono h'.kept) h'.present

theorem weaken (h : Made x n reached held s code s') (hr : reached' → reached) :
    Made x n reached' held s code s' :=
  { h with present := fun h' => h.present (hr h') }

-- What was held besides is held on.
theorem frame (h : Made x n reached [] s code s') (held : Code) :
    Made x n reached held s (held ++ code) s' where
  regular := h.regular
  deferred := h.deferred
  kept stretch hmem := by
    have hkept := @h.kept stretch
    simp only [List.mem_append, List.not_mem_nil, false_or] at hmem hkept ⊢
    tauto
  made stretch hmem := by
    have hmade := h.made stretch
    simp only [List.mem_append, List.not_mem_nil, false_or] at hmem hmade ⊢
    tauto
  present hreached := (h.present hreached).mono fun stretch hmem => by
    simp only [List.mem_append] at hmem ⊢
    tauto

end Made

variable {α β : Type} {m : GenM α} {k : α → GenM β} {o : α → Code} {o' : β → Code}
  {P : α → Prop} {P' : β → Prop}

namespace Gives

theorem pure {a : α} (h : Tidy x → P a) : Gives x (pure a) P := by
  intro s s' b hs hrun
  cases pure_run_eq_ok.mp hrun
  exact ⟨.refl s, h⟩

theorem bind (h : Gives x m P) (h' : ∀ a, (Tidy x → P a) → Gives x (k a) P') :
    Gives x (m >>= k) P' := by
  intro s s' b hs hrun
  obtain ⟨a, s₁, ha, hrun⟩ := bind_run_eq_ok.mp hrun
  obtain ⟨hfirst, hgood⟩ := h s s₁ a hs ha
  obtain ⟨hsecond, hgood'⟩ := h' a hgood s₁ s' b (hfirst.regular hs) hrun
  exact ⟨hfirst.trans hsecond, hgood'⟩

theorem mapM {f : β → GenM α} {l : List β} (h : ∀ b ∈ l, Gives x (f b) P) :
    Gives x (l.mapM f) fun r => ∀ a ∈ r, P a := by
  induction l with
  | nil =>
    rw [List.mapM_nil]
    exact .pure fun _ => by simp
  | cons b l ih =>
    rw [List.mapM_cons]
    obtain ⟨hfirst, hrest⟩ := List.forall_mem_cons.mp h
    refine .bind hfirst fun a ha => .bind (ih hrest) fun as has => .pure fun htidy => ?_
    exact List.forall_mem_cons.mpr ⟨ha htidy, has htidy⟩

theorem imp (h : Gives x m P) {P'' : α → Prop} (hg : ∀ a, P a → P'' a) :
    Gives x m P'' := fun s s' a hs hrun =>
  ⟨(h s s' a hs hrun).1, fun htidy => hg a ((h s s' a hs hrun).2 htidy)⟩

end Gives

namespace Makes

theorem of_gives (h : Gives x m P) : Makes x n False held m (fun _ => held) P :=
  fun s s' a hs hrun => ⟨.of_quiet hs (h s s' a hs hrun).1, (h s s' a hs hrun).2⟩

theorem bind (h : Makes x n reached held m o P)
    (h' : ∀ a, (Tidy x → P a) → Makes x n reached' (o a) (k a) o' P') :
    Makes x n (reached ∨ reached') held (m >>= k) o' P' := by
  intro s s' b hs hrun
  obtain ⟨a, s₁, ha, hrun⟩ := bind_run_eq_ok.mp hrun
  obtain ⟨hfirst, hgood⟩ := h s s₁ a hs ha
  obtain ⟨hsecond, hgood'⟩ := h' a hgood s₁ s' b hfirst.regular hrun
  exact ⟨hfirst.trans hsecond, hgood'⟩

theorem weaken (h : Makes x n reached held m o P) (hr : reached' → reached) :
    Makes x n reached' held m o P :=
  fun s s' a hs hrun => ⟨(h s s' a hs hrun).1.weaken hr, (h s s' a hs hrun).2⟩

-- Behind something that makes no stretches, and in front of it.
theorem after (h : Gives x m P)
    (h' : ∀ a, (Tidy x → P a) → Makes x n reached held (k a) o' P') :
    Makes x n reached held (m >>= k) o' P' :=
  ((of_gives h).bind h').weaken .inr

theorem before (h : Makes x n reached held m o P)
    (h' : ∀ a, (Tidy x → P a) → Makes x n False (o a) (k a) o' P') :
    Makes x n reached held (m >>= k) o' P' :=
  (h.bind h').weaken .inl

theorem frame (h : Makes x n reached [] m o P) (held : Code) :
    Makes x n reached held m (fun a => held ++ o a) P :=
  fun s s' a hs hrun => ⟨(h s s' a hs hrun).1.frame held, (h s s' a hs hrun).2⟩

-- The end of a program: what is held is given, and other stretches with it.
theorem give {a : α} (own : Code) (hout : ∀ stretch, stretch ∈ o a ↔ stretch ∈ held ∨ stretch ∈ own)
    (hown : ∀ stretch ∈ own, Owned x stretch) (hpresent : reached → Presents x n own)
    (hgood : Tidy x → P a) : Makes x n reached held (pure a) o P := by
  intro s s' b hs hrun
  cases pure_run_eq_ok.mp hrun
  refine ⟨.of_mem hs (List.prefix_refl _) own (fun stretch => ?_) hown hpresent, hgood⟩
  simp only [List.mem_append, hout]
  tauto

-- What is held is put into the state, and other stretches with it.
theorem modify {g : State → State} (own : Code) (hregular : ∀ s : State, s.Regular → (g s).Regular)
    (hdeferred : ∀ s, (g s).deferred = s.deferred)
    (hmem : ∀ s stretch, stretch ∈ code ++ (g s).stretches ↔
      stretch ∈ held ++ s.stretches ∨ stretch ∈ own)
    (hown : ∀ stretch ∈ own, Owned x stretch) (hpresent : reached → Presents x n own) :
    Makes x n reached held (modify g : GenM Unit) (fun _ => code) fun _ => True := by
  intro s s' b hs hrun
  cases modify_run_eq_ok.mp hrun
  refine ⟨.of_mem (hregular s hs) ?_ own (hmem s) hown hpresent, fun _ => trivial⟩
  rw [hdeferred s]

theorem mapM {f : β → GenM α} {l : List β} {R : β → Prop}
    (h : ∀ b ∈ l, Makes x n (R b) [] (f b) o P) (held : Code) :
    Makes x n (∃ b ∈ l, R b) held (l.mapM f) (fun r => held ++ r.flatMap o)
      fun r => ∀ a ∈ r, P a := by
  induction l generalizing held with
  | nil =>
    rw [List.mapM_nil]
    exact .give [] (by simp) (by simp) (by simp) fun _ => by simp
  | cons b l ih =>
    rw [List.mapM_cons]
    obtain ⟨hfirst, hrest⟩ := List.forall_mem_cons.mp h
    refine ((hfirst.frame held).bind fun a ha => (ih hrest _).before fun as has =>
      .give [] (by simp) (by simp) False.elim fun htidy => ?_).weaken ?_
    · exact List.forall_mem_cons.mpr ⟨ha htidy, has htidy⟩
    · simp

-- What follows a choice comes behind both of its branches.
theorem ite_bind {c : Prop} [Decidable c] {m' : GenM α}
    (h : Makes x n reached held (if c then m else m') o P)
    (h' : ∀ a, (Tidy x → P a) → Makes x n reached' (o a) (k a) o' P') :
    Makes x n (reached ∨ reached') held (if c then m >>= k else m' >>= k) o' P' := by
  have hbind := h.bind h'
  split_ifs at hbind ⊢
  · exact hbind
  · exact hbind

end Makes

end

end ClassText
end PageCompiler
