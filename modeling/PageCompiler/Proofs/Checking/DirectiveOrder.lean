import PageCompiler.Proofs.Checking.Reconciling
import PageCompiler.Proofs.Reading.PageStages
import Mathlib.Data.List.Nodup
import Mathlib.Logic.Function.Basic

-- Which attributes are accepted, and what they make of the settings, is told for all attributes at
-- once, so that it is the same for every way of writing them down. Only the order of the imports is
-- that of the directives.
namespace PageCompiler

open Text

-- What an attribute says, apart from where it stands.
def Attribute.content (a : Attribute) : String × String × Bool := (a.name, a.value, a.scripting)

theorem Attribute.content_eq_iff {a b : Attribute} :
    a.content = b.content ↔ a.name = b.name ∧ a.value = b.value ∧ a.scripting = b.scripting := by
  simp [content]

theorem Attribute.find?_eq_none {as : List Attribute} {name : String} :
    find? as name = none ↔ ∀ a ∈ as, a.name ≠ name := by
  simp [find?]

theorem Attribute.mem_of_find? {as : List Attribute} {name value : String}
    (h : find? as name = some value) : ∃ a ∈ as, a.name = name ∧ a.value = value := by
  obtain ⟨a, ha, rfl⟩ := Option.map_eq_some_iff.mp h
  exact ⟨a, List.mem_of_find?_eq_some ha, by simpa using List.find?_some ha, rfl⟩

theorem Attribute.find?_append (as : List Attribute) (a : Attribute) (name : String) :
    find? (as ++ [a]) name = (find? as name).or (if a.name = name then some a.value else none) := by
  rw [find?, find?, List.find?_append, Option.map_or]
  by_cases hname : a.name = name <;> simp [hname]

-- A byte order mark and an XML declaration name one encoding.
def EncodingInfo.Agrees (e : EncodingInfo) : Prop :=
  ∀ bom ∈ e.byteOrderMark, ∀ prolog ∈ e.prolog, Encoding.same bom prolog

namespace Tree

open Settings (isPageDirective)

-- In document order, whatever they stand below.
def directiveAttributes (t : Tree) : List Attribute :=
  t.preorder.flatMap fun id => (t.directedOf id).map Declaration.attr

-- No page directive stands below another one.
def DirectivesApart (t : Tree) : Prop :=
  ∀ id ∈ t.preorder, isPageDirective (t.kind id) →
    ∀ p ∈ t.ancestors id, isPageDirective (t.kind p) = false

instance (t : Tree) : Decidable t.DirectivesApart :=
  inferInstanceAs (Decidable (∀ id ∈ t.preorder, isPageDirective (t.kind id) →
    ∀ p ∈ t.ancestors id, isPageDirective (t.kind p) = false))

-- The node does not stand below a page directive.
def Open (t : Tree) (id : NodeId) : Bool :=
  (t.ancestors id).all fun p => !isPageDirective (t.kind p)

-- The encodings of the units that are not included below a page directive.
def openEncodings (t : Tree) : List EncodingInfo :=
  (t.preorder.filter t.Open).filterMap fun id => (t.kind id).root?.map UnitRoot.encoding

-- The encodings of all units.
def unitEncodings (t : Tree) : List EncodingInfo :=
  t.preorder.filterMap fun id => (t.kind id).root?.map UnitRoot.encoding

theorem enter_of_mem_walk {t : Tree} (ht : t.WellFormed) {enter : NodeKind → Bool} {fuel : Nat}
    {stack : List NodeId}
    (hstack : ∀ i ∈ stack, ∀ p ∈ t.ancestors i, enter (t.kind p) = true) {id : NodeId}
    (h : id ∈ t.walk enter fuel stack) : ∀ p ∈ t.ancestors id, enter (t.kind p) = true := by
  induction fuel generalizing stack with
  | zero => cases h
  | succ fuel ih =>
    cases stack with
    | nil => cases h
    | cons first stack =>
      obtain ⟨hfirst, hrest⟩ := List.forall_mem_cons.mp hstack
      rcases List.mem_cons.mp h with rfl | h
      · exact hfirst
      · refine ih (fun c hc => ?_) h
        rcases List.mem_append.mp hc with hc | hc
        · split at hc
          · rename_i henter
            rw [ancestors_eq_cons (ht.parent_eq hc) (ht.child_lt hc).1]
            exact List.forall_mem_cons.mpr ⟨henter, hfirst⟩
          · cases hc
        · exact hrest c hc

-- The nodes that are looked at are those that do not stand below a page directive.
theorem WellFormed.mem_entered_iff {t : Tree} (ht : t.WellFormed) {id : NodeId} :
    id ∈ t.entered (fun kind => !isPageDirective kind) ↔ id ∈ t.preorder ∧ t.Open id := by
  rw [Open, List.all_eq_true]
  constructor
  · intro h
    have hstart : ∀ i ∈ [root], t.Reachable i := by
      intro i hi
      rw [List.mem_singleton.mp hi]
      exact .refl
    refine ⟨ht.mem_preorder_of_reachable (reachable_of_mem_walk hstart h),
      enter_of_mem_walk ht (fun i hi p hp => ?_) h⟩
    have hbelow := lt_of_mem_ancestors hp
    rw [List.mem_singleton.mp hi] at hbelow
    exact absurd hbelow (Nat.not_lt_zero _)
  · rintro ⟨hid, hopen⟩
    refine (ht.mem_entered_or_below _ (ht.mem_preorder_iff.mp hid)).resolve_right ?_
    rintro ⟨p, hp, hclosed⟩
    rw [hopen p hp] at hclosed
    cases hclosed

theorem WellFormed.mem_openEncodings {t : Tree} (ht : t.WellFormed) {e : EncodingInfo} :
    e ∈ t.openEncodings ↔ ∃ id ∈ t.entered (fun kind => !isPageDirective kind),
      ∃ data, (t.kind id).root? = some data ∧ data.encoding = e := by
  simp only [openEncodings, List.mem_filterMap, List.mem_filter, ht.mem_entered_iff,
    Option.map_eq_some_iff]

-- Where no page directive stands below another one, all of them are taken up.
theorem WellFormed.directed_perm {t : Tree} (ht : t.WellFormed) (hapart : t.DirectivesApart) :
    (t.directed.map Declaration.attr).Perm t.directiveAttributes := by
  have hflat : ∀ ids : List NodeId, (ids.flatMap t.directedOf).map Declaration.attr =
      (ids.filter fun id => isPageDirective (t.kind id)).flatMap
        fun id => (t.directedOf id).map Declaration.attr := by
    intro ids
    induction ids with
    | nil => rfl
    | cons id ids ih =>
      rw [List.flatMap_cons, List.map_append, ih]
      cases hkind : isPageDirective (t.kind id) with
      | true => rw [List.filter_cons, if_pos hkind, List.flatMap_cons]
      | false =>
        rw [List.filter_cons, if_neg (by simp [hkind]), directedOf, hkind]
        rfl
  rw [directiveAttributes, ← List.map_flatMap, directed, hflat, hflat]
  refine List.Perm.flatMap_right _ ?_
  refine (List.perm_ext_iff_of_nodup ((nodup_entered ht _).filter _)
    ((nodup_entered ht _).filter _)).mpr fun id => ?_
  rw [List.mem_filter, List.mem_filter, ht.mem_entered_iff, and_assoc]
  refine and_congr_right fun hid => and_iff_right_of_imp fun hkind => ?_
  rw [Open, List.all_eq_true]
  exact fun p hp => by rw [hapart id hid hkind p hp]; rfl

end Tree

namespace Settings

open Checking (bind_eq_ok)

-- The attributes that turn something on or off.
def flagNames : List String :=
  ["session", "autoFlush", "isThreadSafe", "isErrorPage", "isELIgnored",
    "deferredSyntaxAllowedAsLiteral", "trimDirectiveWhitespaces"]

-- The attributes that may have any value.
def textNames : List String := ["extends", "info", "errorPage", "contentType"]

-- There is an attribute of this name, and it may have this value.
def Takes (name value : String) : Prop :=
  name = "language" ∧ value = "java" ∨ name = "buffer" ∧ (buffer? value).any (· < wordLimit) ∨
    name ∈ flagNames ∧ (lower value = "true" ∨ lower value = "false") ∨ name ∈ textNames

-- The settings of a page that imports these names and gives these values to its attributes.
def told (o : Options) (imports : List String) (value : String → Option String) : Settings where
  language := (value "language").getD "java"
  superclass := value "extends"
  imports
  session := ((value "session").map Text.isTrue).getD true
  bufferSize := ((value "buffer").bind buffer?).getD o.bufferSize
  autoFlush := ((value "autoFlush").map Text.isTrue).getD o.autoFlush
  threadSafe := ((value "isThreadSafe").map Text.isTrue).getD true
  info := value "info"
  errorPage := value "errorPage"
  isErrorPage := ((value "isErrorPage").map Text.isTrue).getD false
  contentType := value "contentType"
  elIgnored := ((value "isELIgnored").map Text.isTrue).getD o.elIgnored
  deferredAsLiteral := ((value "deferredSyntaxAllowedAsLiteral").map Text.isTrue).getD o.deferredAsLiteral
  trimDirectiveWhitespaces :=
    ((value "trimDirectiveWhitespaces").map Text.isTrue).getD o.trimDirectiveWhitespaces

-- The settings come from the values of the attributes with a value of their own.
theorem told_congr {o : Options} {imports : List String} {value value' : String → Option String}
    (h : ∀ name, name ≠ "import" → value name = value' name) :
    told o imports value = told o imports value' := by
  rw [told, told, h "language" (by decide), h "extends" (by decide), h "session" (by decide),
    h "buffer" (by decide), h "autoFlush" (by decide), h "isThreadSafe" (by decide),
    h "info" (by decide), h "errorPage" (by decide), h "isErrorPage" (by decide),
    h "contentType" (by decide), h "isELIgnored" (by decide),
    h "deferredSyntaxAllowedAsLiteral" (by decide), h "trimDirectiveWhitespaces" (by decide)]

variable {t : Tree} {o : Options} {imports : List String} {value : String → Option String}

theorem flag_eq_ok_iff {a : Attribute} {on : Bool} :
    flag t a = .ok on ↔ (lower a.value = "true" ∨ lower a.value = "false") ∧ on = Text.isTrue a.value := by
  refine ⟨fun h => ⟨?_, flag_eq_ok h⟩, ?_⟩
  · unfold flag at h
    split at h
    · rename_i hvalue
      exact .inl hvalue
    · rename_i hvalue
      exact .inr hvalue
    · cases h
  · rintro ⟨hvalue | hvalue, rfl⟩ <;>
      rw [flag, hvalue, Text.isTrue, sameLetters, hvalue] <;> rfl

theorem flag_bind_eq_ok_iff {a : Attribute} {set : Bool → Settings} {s : Settings} :
    (flag t a >>= fun on => pure (set on)) = .ok s ↔
      (lower a.value = "true" ∨ lower a.value = "false") ∧ s = set (Text.isTrue a.value) := by
  rw [bind_eq_ok]
  constructor
  · rintro ⟨on, hon, h⟩
    obtain ⟨hvalue, rfl⟩ := flag_eq_ok_iff.mp hon
    cases h
    exact ⟨hvalue, rfl⟩
  · rintro ⟨hvalue, rfl⟩
    exact ⟨_, flag_eq_ok_iff.mpr ⟨hvalue, rfl⟩, rfl⟩

theorem takes_language {v : String} : Takes "language" v ↔ v = "java" := by
  simp [Takes, flagNames, textNames]

theorem takes_buffer {v : String} : Takes "buffer" v ↔ (buffer? v).any (· < wordLimit) := by
  simp [Takes, flagNames, textNames]

theorem takes_flag {name v : String} (h : name ∈ flagNames) :
    Takes name v ↔ lower v = "true" ∨ lower v = "false" := by
  have hother : name ≠ "language" ∧ name ≠ "buffer" ∧ name ∉ textNames := by
    revert name
    decide
  simp only [Takes, hother, false_and, false_or, h, true_and, or_false]

theorem takes_text {name v : String} (h : name ∈ textNames) : Takes name v :=
  .inr (.inr (.inr h))

theorem size_bind_eq_ok_iff {a : Attribute} {set : Nat → Settings} {s : Settings} :
    (size t a >>= fun bytes => pure (set bytes)) = .ok s ↔
      ∃ bytes, buffer? a.value = some bytes ∧ bytes < wordLimit ∧ s = set bytes := by
  rw [bind_eq_ok]
  constructor
  · rintro ⟨bytes, hbytes, h⟩
    obtain ⟨hvalue, hfits⟩ := size_eq_ok_iff.mp hbytes
    cases h
    exact ⟨bytes, hvalue, hfits, rfl⟩
  · rintro ⟨bytes, hvalue, hfits, rfl⟩
    exact ⟨bytes, size_eq_ok_iff.mpr ⟨hvalue, hfits⟩, rfl⟩

theorem pure_eq_ok_iff {s s' : Settings} :
    (pure s' : Except Diagnostic Settings) = .ok s ↔ s = s' :=
  ⟨fun h => (Except.ok.inj h).symm, fun h => h ▸ rfl⟩

-- An attribute that is accepted gives its value to its name, and changes nothing else.
theorem apply_told {a : Attribute} {s : Settings} :
    apply t (told o imports value) a = .ok s ↔
      Takes a.name a.value ∧ s = told o imports (Function.update value a.name (some a.value)) := by
  unfold apply
  split
  case h_14 =>
    refine ⟨fun h => (nomatch h), fun h => ?_⟩
    rcases h.1 with ⟨hname, -⟩ | ⟨hname, -⟩ | ⟨hname, -⟩ | hname <;>
      simp_all [flagNames, textNames]
  all_goals
    rename_i hname
    rw [hname]
  case h_1 =>
    rw [takes_language]
    split
    · rename_i hvalue
      rw [pure_eq_ok_iff, and_iff_right hvalue]
      simp [told]
    · rename_i hvalue
      exact ⟨fun h => (nomatch h), fun h => absurd h.1 hvalue⟩
  case h_4 =>
    rw [takes_buffer, size_bind_eq_ok_iff]
    cases hvalue : buffer? _ with
    | none => simp
    | some bytes => simp [told, hvalue]
  case h_2 | h_7 | h_8 | h_10 =>
    rw [and_iff_right (takes_text (by decide)), pure_eq_ok_iff]
    simp [told]
  all_goals
    rw [takes_flag (by decide), flag_bind_eq_ok_iff]
    simp [told]

-- The names in the value of an attribute that imports.
def importNames (v : String) : List String :=
  ((split ',' v).map trimmed).filter fun s => !s.isEmpty

theorem mem_addImports {v name : String} :
    name ∈ addImports imports v ↔ name ∈ imports ∨ name ∈ importNames v := by
  rw [addImports, ← importNames]
  induction importNames v generalizing imports with
  | nil => simp
  | cons first names ih =>
    rw [List.foldl_cons, ih, List.mem_cons, ← or_assoc]
    refine or_congr_left ?_
    split
    · rename_i hknown
      refine (or_iff_left_of_imp ?_).symm
      rintro rfl
      simpa using hknown
    · rw [List.mem_append, List.mem_singleton]

theorem nodup_addImports {v : String} (h : imports.Nodup) : (addImports imports v).Nodup := by
  rw [addImports, ← importNames]
  induction importNames v generalizing imports with
  | nil => exact h
  | cons first names ih =>
    rw [List.foldl_cons]
    apply ih
    split
    · exact h
    · rename_i hnew
      exact List.nodup_append.mpr ⟨h, List.nodup_singleton first, by
        rintro a ha b hb rfl
        rw [List.mem_singleton.mp hb] at ha
        simp [ha] at hnew⟩

-- What the attributes import, in the order in which the names come up first.
def importsOf (as : List Attribute) : List String :=
  (as.filter fun a => a.name == "import").foldl (fun imports a => addImports imports a.value) []

theorem importsOf_append (as : List Attribute) (a : Attribute) :
    importsOf (as ++ [a]) =
      if a.name = "import" then addImports (importsOf as) a.value else importsOf as := by
  rw [importsOf, importsOf, List.filter_append, List.foldl_append]
  by_cases hname : a.name = "import" <;> simp [hname]

theorem mem_importsOf {as : List Attribute} {name : String} :
    name ∈ importsOf as ↔ ∃ a ∈ as, a.name = "import" ∧ name ∈ importNames a.value := by
  induction as using List.reverseRecOn with
  | nil => simp [importsOf]
  | append_singleton as a ih =>
    rw [importsOf_append]
    split
    · rename_i hname
      rw [mem_addImports, ih]
      simp [or_and_right, exists_or, hname]
    · rename_i hname
      rw [ih]
      simp [or_and_right, exists_or, hname]

theorem nodup_importsOf (as : List Attribute) : (importsOf as).Nodup := by
  induction as using List.reverseRecOn with
  | nil => exact List.nodup_nil
  | append_singleton as a ih =>
    rw [importsOf_append]
    split
    · exact nodup_addImports ih
    · exact ih

structure Consistent (as : List Attribute) : Prop where
  literal : ∀ a ∈ as, a.scripting = false
  takes : ∀ a ∈ as, a.name = "import" ∨ Takes a.name a.value
  same : ∀ a ∈ as, ∀ b ∈ as, a.name = b.name → a.name = "import" ∨ a.value = b.value

theorem consistent_nil : Consistent [] :=
  ⟨fun _ h => (nomatch h), fun _ h => (nomatch h), fun _ h => (nomatch h)⟩

-- Only what the attributes say matters, and not how often they say it.
theorem Consistent.of_contents {as bs : List Attribute} (h : Consistent as)
    (hsub : ∀ b ∈ bs, ∃ a ∈ as, a.content = b.content) : Consistent bs where
  literal b hb := by
    obtain ⟨a, ha, heq⟩ := hsub b hb
    exact (Attribute.content_eq_iff.mp heq).2.2 ▸ h.literal a ha
  takes b hb := by
    obtain ⟨a, ha, heq⟩ := hsub b hb
    obtain ⟨hname, hvalue, -⟩ := Attribute.content_eq_iff.mp heq
    exact hname ▸ hvalue ▸ h.takes a ha
  same b hb c hc hbc := by
    obtain ⟨a, ha, heq⟩ := hsub b hb
    obtain ⟨a', ha', heq'⟩ := hsub c hc
    obtain ⟨hname, hvalue, -⟩ := Attribute.content_eq_iff.mp heq
    obtain ⟨hname', hvalue', -⟩ := Attribute.content_eq_iff.mp heq'
    rw [← hname, ← hvalue, ← hvalue']
    exact h.same a ha a' ha' (hname.trans (hbc.trans hname'.symm))

theorem Consistent.of_append {as bs : List Attribute} (h : Consistent (as ++ bs)) : Consistent as :=
  h.of_contents fun a ha => ⟨a, List.mem_append_left _ ha, rfl⟩

-- The first value of an attribute is its only one.
theorem Consistent.find?_eq_some {as : List Attribute} (h : Consistent as) {name v : String}
    (hname : name ≠ "import") :
    Attribute.find? as name = some v ↔ ∃ a ∈ as, a.name = name ∧ a.value = v := by
  refine ⟨Attribute.mem_of_find?, ?_⟩
  rintro ⟨a, ha, rfl, rfl⟩
  cases hfound : Attribute.find? as a.name with
  | none => exact absurd rfl (Attribute.find?_eq_none.mp hfound a ha)
  | some v =>
    obtain ⟨b, hb, hsame, rfl⟩ := Attribute.mem_of_find? hfound
    rw [((h.same b hb a ha hsame).resolve_left (hsame ▸ hname))]

-- Whether an attribute is accepted behind others.
def Fits (as : List Attribute) (a : Attribute) : Prop :=
  a.scripting = false ∧ (a.name = "import" ∨
    Takes a.name a.value ∧ ∀ v, Attribute.find? as a.name = some v → v = a.value)

theorem consistent_append_iff {as : List Attribute} {a : Attribute} (h : Consistent as) :
    Consistent (as ++ [a]) ↔ Fits as a := by
  constructor
  · intro hall
    have hmem : a ∈ as ++ [a] := List.mem_append_right _ (List.mem_singleton_self a)
    refine ⟨hall.literal a hmem, ?_⟩
    by_cases hname : a.name = "import"
    · exact .inl hname
    · refine .inr ⟨(hall.takes a hmem).resolve_left hname, fun v hv => ?_⟩
      obtain ⟨b, hb, hsame, rfl⟩ := Attribute.mem_of_find? hv
      exact (hall.same b (List.mem_append_left _ hb) a hmem hsame).resolve_left (hsame ▸ hname)
  · rintro ⟨hliteral, hfits⟩
    -- An attribute in front with the same name has the value that is found for it.
    have hsame : ∀ b ∈ as, b.name = a.name → a.name = "import" ∨ b.value = a.value := by
      intro b hb hname
      by_cases himport : a.name = "import"
      · exact .inl himport
      · refine .inr ((hfits.resolve_left himport).2 b.value ?_)
        exact (h.find?_eq_some himport).mpr ⟨b, hb, hname, rfl⟩
    refine ⟨?_, ?_, ?_⟩
    · exact List.forall_mem_append.mpr ⟨h.literal, List.forall_mem_singleton.mpr hliteral⟩
    · exact List.forall_mem_append.mpr
        ⟨h.takes, List.forall_mem_singleton.mpr (hfits.imp_right And.left)⟩
    · intro b hb c hc hname
      rcases List.mem_append.mp hb with hb | hb <;> rcases List.mem_append.mp hc with hc | hc
      · exact h.same b hb c hc hname
      · rw [List.mem_singleton.mp hc] at hname ⊢
        rw [hname]
        exact hsame b hb hname
      · rw [List.mem_singleton.mp hb] at hname ⊢
        exact (hsame c hc hname.symm).imp_right Eq.symm
      · rw [List.mem_singleton.mp hb, List.mem_singleton.mp hc]
        exact .inr rfl

-- The state of the reconciliation after these attributes.
structure Reached (o : Options) (as : List Attribute) (r : Reconciled) : Prop where
  settings : r.settings = told o (importsOf as) (Attribute.find? as)
  seen : ∀ name, name ≠ "import" → (r.seen.lookup name).map Seen.value = Attribute.find? as name

-- A step that takes these attributes up, and fails if they are not accepted or `P` does not hold.
structure Adds (o : Options) (P : Prop) (attrs : List Attribute)
    (step : Reconciled → Except Diagnostic Reconciled) : Prop where
  ok_iff : ∀ {as r}, Reached o as r → Consistent as →
    ((∃ r', step r = .ok r') ↔ P ∧ Consistent (as ++ attrs))
  reached : ∀ {as r r'}, Reached o as r → Consistent as → step r = .ok r' → Reached o (as ++ attrs) r'

theorem Adds.guard {P : Prop} {check : Except Diagnostic Unit} (hcheck : check = .ok () ↔ P) :
    Adds o P [] fun r => check >>= fun _ => pure r where
  ok_iff {as r} _ hc := by
    rw [List.append_nil, and_iff_left hc, ← hcheck]
    constructor
    · rintro ⟨r', h⟩
      exact (bind_eq_ok.mp h).choose_spec.1
    · intro h
      exact ⟨r, bind_eq_ok.mpr ⟨(), h, rfl⟩⟩
  reached {as r r'} hr _ h := by
    obtain ⟨_, -, h⟩ := bind_eq_ok.mp h
    cases h
    rwa [List.append_nil]

theorem Adds.nil : Adds o True [] pure where
  ok_iff {as r} _ hc := by
    rw [List.append_nil]
    exact ⟨fun _ => ⟨trivial, hc⟩, fun _ => ⟨r, rfl⟩⟩
  reached hr _ h := by
    cases h
    rwa [List.append_nil]

theorem Adds.bind {P Q : Prop} {attrs attrs' : List Attribute}
    {step step' : Reconciled → Except Diagnostic Reconciled} (h : Adds o P attrs step)
    (h' : Adds o Q attrs' step') : Adds o (P ∧ Q) (attrs ++ attrs') fun r => step r >>= step' where
  ok_iff {as r} hr hc := by
    rw [← List.append_assoc]
    constructor
    · rintro ⟨r', hstep⟩
      obtain ⟨r₁, hfirst, hrest⟩ := bind_eq_ok.mp hstep
      obtain ⟨hp, hc₁⟩ := (h.ok_iff hr hc).mp ⟨r₁, hfirst⟩
      obtain ⟨hq, hall⟩ := (h'.ok_iff (h.reached hr hc hfirst) hc₁).mp ⟨r', hrest⟩
      exact ⟨⟨hp, hq⟩, hall⟩
    · rintro ⟨⟨hp, hq⟩, hall⟩
      obtain ⟨r₁, hfirst⟩ := (h.ok_iff hr hc).mpr ⟨hp, hall.of_append⟩
      obtain ⟨r', hrest⟩ := (h'.ok_iff (h.reached hr hc hfirst) hall.of_append).mpr ⟨hq, hall⟩
      exact ⟨r', bind_eq_ok.mpr ⟨r₁, hfirst, hrest⟩⟩
  reached {as r r'} hr hc hstep := by
    obtain ⟨r₁, hfirst, hrest⟩ := bind_eq_ok.mp hstep
    obtain ⟨-, hc₁⟩ := (h.ok_iff hr hc).mp ⟨r₁, hfirst⟩
    rw [← List.append_assoc]
    exact h'.reached (h.reached hr hc hfirst) hc₁ hrest

-- By induction on what is taken up one after the other.
theorem Adds.foldlM {α : Type} {P : α → Prop} {attrs : α → List Attribute}
    {step : Reconciled → α → Except Diagnostic Reconciled} {l : List α}
    (h : ∀ x ∈ l, Adds o (P x) (attrs x) fun r => step r x) :
    Adds o (∀ x ∈ l, P x) (l.flatMap attrs) fun r => l.foldlM step r := by
  induction l with
  | nil => simpa using Adds.nil
  | cons x l ih =>
    obtain ⟨hfirst, hrest⟩ := List.forall_mem_cons.mp h
    rw [List.flatMap_cons]
    simp only [List.forall_mem_cons, List.foldlM_cons]
    exact hfirst.bind (ih hrest)

theorem record_ok_iff {r : Reconciled} {a : Attribute} :
    (∃ r', record t r a = .ok r') ↔
      ∀ first, r.seen.lookup a.name = some first → first.value = a.value := by
  unfold record
  cases hfirst : r.seen.lookup a.name with
  | none => simp
  | some first => by_cases hsame : first.value = a.value <;> simp [hsame, conflict, fail]

theorem Reached.seen_iff {as : List Attribute} {r : Reconciled} (h : Reached o as r) {a : Attribute}
    (hname : a.name ≠ "import") :
    (∀ first, r.seen.lookup a.name = some first → first.value = a.value) ↔
      ∀ v, Attribute.find? as a.name = some v → v = a.value := by
  rw [← h.seen a.name hname]
  simp

-- An attribute with a value of its own gives it to its name, unless it has been given before.
theorem Reached.append {as : List Attribute} {r r' : Reconciled} {a : Attribute} (h : Reached o as r)
    (hname : a.name ≠ "import")
    (hvalue : ∀ v, Attribute.find? as a.name = some v → v = a.value)
    (hsettings : r'.settings =
      told o (importsOf as) (Function.update (Attribute.find? as) a.name (some a.value)))
    (hself : (r'.seen.lookup a.name).map Seen.value = some a.value)
    (hother : ∀ name, name ≠ a.name → r'.seen.lookup name = r.seen.lookup name) :
    Reached o (as ++ [a]) r' := by
  have hfind : Attribute.find? (as ++ [a]) =
      Function.update (Attribute.find? as) a.name (some a.value) := by
    funext name
    rw [Attribute.find?_append, Function.update_apply]
    by_cases hsame : name = a.name
    · subst hsame
      rw [if_pos rfl, if_pos rfl]
      cases hfound : Attribute.find? as a.name with
      | none => rfl
      | some v => rw [hvalue v hfound, Option.some_or]
    · rw [if_neg (Ne.symm hsame), if_neg hsame, Option.or_none]
  refine ⟨?_, fun name hne => ?_⟩
  · rw [hsettings, importsOf_append, if_neg hname, hfind]
  · rw [hfind, Function.update_apply]
    by_cases hsame : name = a.name
    · rw [if_pos hsame, hsame, hself]
    · rw [if_neg hsame, hother name hsame, h.seen name hne]

-- An attribute with a value of its own, while the attributes in front of it have been taken up.
theorem Reached.apply_record_iff {as : List Attribute} {r r' : Reconciled} {a : Attribute}
    (h : Reached o as r) :
    (apply t r.settings a >>= fun settings => record t { r with settings } a) = .ok r' ↔
      Takes a.name a.value ∧ record t ⟨told o (importsOf as)
        (Function.update (Attribute.find? as) a.name (some a.value)), r.seen, r.encodings⟩ a =
          .ok r' := by
  rw [bind_eq_ok, h.settings]
  simp only [apply_told]
  constructor
  · rintro ⟨_, ⟨htakes, rfl⟩, hrecord⟩
    exact ⟨htakes, hrecord⟩
  · rintro ⟨htakes, hrecord⟩
    exact ⟨_, ⟨htakes, rfl⟩, hrecord⟩

-- An attribute that is no declaration of an encoding.
theorem adds_applyAttribute {id : NodeId} {a : Attribute} (hname : a.name ≠ "pageEncoding") :
    Adds o True [a] fun r => applyAttribute t id r a where
  ok_iff {as r} hr hc := by
    rw [true_and, consistent_append_iff hc, Fits]
    unfold applyAttribute
    cases hliteral : a.scripting with
    | true => simp [invalid, fail, Bind.bind, Except.bind]
    | false =>
      simp only [Bool.false_eq_true, if_false, true_and]
      split
      · rename_i himport
        simp [himport, pure, Except.pure]
      · rename_i hencoding
        exact absurd hencoding hname
      · rename_i himport _
        rw [or_iff_right himport, ← hr.seen_iff himport]
        simp only [hr.apply_record_iff, exists_and_left, record_ok_iff]
  reached {as r r'} hr hc happly := by
    unfold applyAttribute at happly
    cases hliteral : a.scripting with
    | true =>
      rw [hliteral] at happly
      exact nomatch happly
    | false =>
      simp only [hliteral, Bool.false_eq_true, if_false] at happly
      split at happly
      · rename_i himport
        cases happly
        have hfind : ∀ name, name ≠ "import" →
            Attribute.find? (as ++ [a]) name = Attribute.find? as name := by
          intro name hne
          rw [Attribute.find?_append, if_neg (himport ▸ hne.symm), Option.or_none]
        refine ⟨?_, fun name hne => (hr.seen name hne).trans (hfind name hne).symm⟩
        rw [importsOf_append, if_pos himport, told_congr hfind]
        dsimp only
        rw [hr.settings]
        rfl
      · rename_i hencoding
        exact absurd hencoding hname
      · rename_i himport _
        obtain ⟨-, hrecord⟩ := hr.apply_record_iff.mp happly
        obtain ⟨hsettings, hself, hsame, hother⟩ := record_eq_ok hrecord
        exact hr.append himport ((hr.seen_iff himport).mp hsame) hsettings hself hother

theorem checkRoot_eq_ok_iff {id : NodeId} {data : UnitRoot} :
    checkRoot t id data = .ok () ↔ data.encoding.Agrees := by
  unfold checkRoot EncodingInfo.Agrees
  cases data.encoding.byteOrderMark <;> cases data.encoding.prolog <;> simp [fail]

theorem adds_applyNode {id : NodeId}
    (hnames : ∀ a ∈ (t.directedOf id).map Tree.Declaration.attr, a.name ≠ "pageEncoding") :
    Adds o (∀ data, (t.kind id).root? = some data → data.encoding.Agrees)
      ((t.directedOf id).map Tree.Declaration.attr) fun r => applyNode t r id := by
  unfold Tree.directedOf at hnames ⊢
  unfold applyNode
  cases hkind : t.kind id with
  | root data =>
    have hroot : checkRoot t id data = .ok () ↔
        ∀ data', (NodeKind.root data).root? = some data' → data'.encoding.Agrees := by
      simp [checkRoot_eq_ok_iff, NodeKind.root?]
    exact .guard hroot
  | pageDirective =>
    rw [hkind] at hnames
    have hattributes : Adds o (∀ a ∈ (t.node id).attributes, True)
        ((t.node id).attributes.flatMap fun a => [a])
        fun r => (t.node id).attributes.foldlM (applyAttribute t id) r :=
      .foldlM fun a ha => adds_applyAttribute (hnames a (by simpa [isPageDirective] using ha))
    simpa [isPageDirective, NodeKind.root?, Function.comp_def] using hattributes
  | _ => simpa [isPageDirective, NodeKind.root?] using Adds.nil

-- Output that is not buffered is flushed.
def Flushed (s : Settings) : Prop := s.bufferSize = 0 → s.autoFlush

theorem checkFlush_eq_ok_iff {r : Reconciled} {s : Settings} :
    checkFlush t r = .ok s ↔ r.settings.Flushed ∧ s = r.settings := by
  unfold checkFlush Flushed
  split
  · rename_i hbad
    rw [Bool.and_eq_true, decide_eq_true_eq, Bool.not_eq_true'] at hbad
    refine ⟨fun h => (nomatch h), fun h => ?_⟩
    rw [h.1 hbad.1] at hbad
    exact absurd hbad.2 (by decide)
  · rename_i hgood
    rw [Bool.and_eq_true, decide_eq_true_eq, Bool.not_eq_true', not_and, Bool.not_eq_false] at hgood
    exact ⟨fun h => ⟨hgood, (Except.ok.inj h).symm⟩, fun h => h.2 ▸ rfl⟩

-- When the settings come about, and what they are: what is taken up is asked for as a whole.
theorem reconcile_eq_ok_iff (ht : t.WellFormed)
    (hnames : ∀ a ∈ t.directed.map Tree.Declaration.attr, a.name ≠ "pageEncoding") {s : Settings} :
    reconcile t o = .ok s ↔ (∀ e ∈ t.openEncodings, e.Agrees) ∧
      Consistent (t.directed.map Tree.Declaration.attr) ∧ s.Flushed ∧
      s = told o (importsOf (t.directed.map Tree.Declaration.attr))
        (Attribute.find? (t.directed.map Tree.Declaration.attr)) := by
  have hadds : Adds o (∀ id ∈ t.entered fun kind => !isPageDirective kind,
      ∀ data, (t.kind id).root? = some data → data.encoding.Agrees)
      (t.directed.map Tree.Declaration.attr)
      fun r => (t.entered fun kind => !isPageDirective kind).foldlM (applyNode t) r := by
    rw [Tree.directed, List.map_flatMap] at hnames ⊢
    exact .foldlM fun id hid => adds_applyNode fun a ha =>
      hnames a (List.mem_flatMap.mpr ⟨id, hid, ha⟩)
  have hstart : Reached o [] { settings := ofOptions o } := ⟨rfl, fun _ _ => rfl⟩
  have hencodings : (∀ e ∈ t.openEncodings, e.Agrees) ↔
      ∀ id ∈ t.entered fun kind => !isPageDirective kind,
        ∀ data, (t.kind id).root? = some data → data.encoding.Agrees := by
    simp only [ht.mem_openEncodings]
    constructor
    · exact fun h id hid data hdata => h _ ⟨id, hid, data, hdata, rfl⟩
    · rintro h _ ⟨id, hid, data, hdata, rfl⟩
      exact h id hid data hdata
  rw [hencodings, reconcile, bind_eq_ok]
  constructor
  · rintro ⟨r, hnodes, hflush⟩
    obtain ⟨hflushed, rfl⟩ := checkFlush_eq_ok_iff.mp hflush
    obtain ⟨hagree, hconsistent⟩ := (hadds.ok_iff hstart consistent_nil).mp ⟨r, hnodes⟩
    exact ⟨hagree, hconsistent, hflushed, (hadds.reached hstart consistent_nil hnodes).settings⟩
  · rintro ⟨hagree, hconsistent, hflushed, hs⟩
    obtain ⟨r, hnodes⟩ := (hadds.ok_iff hstart consistent_nil).mpr ⟨hagree, hconsistent⟩
    have hsettings := (hadds.reached hstart consistent_nil hnodes).settings.trans hs.symm
    exact ⟨r, hnodes, checkFlush_eq_ok_iff.mpr ⟨hsettings ▸ hflushed, hsettings.symm⟩⟩

-- Attributes that say the same things are accepted together, and give every name the same value.
theorem Consistent.of_same {as bs : List Attribute} (h : Consistent as)
    (hsame : ∀ c, c ∈ as.map Attribute.content ↔ c ∈ bs.map Attribute.content) :
    Consistent bs ∧ (∀ name, name ≠ "import" → Attribute.find? bs name = Attribute.find? as name) ∧
      (importsOf bs).Perm (importsOf as) := by
  have hfrom : ∀ b ∈ bs, ∃ a ∈ as, a.content = b.content := fun b hb =>
    List.mem_map.mp ((hsame _).mpr (List.mem_map_of_mem hb))
  have hto : ∀ a ∈ as, ∃ b ∈ bs, b.content = a.content := fun a ha =>
    List.mem_map.mp ((hsame _).mp (List.mem_map_of_mem ha))
  have hbs := h.of_contents hfrom
  -- What one attribute says by its name and its value, an attribute of the other page does.
  have hcarry : ∀ {P : String → String → Prop},
      (∃ b ∈ bs, P b.name b.value) ↔ ∃ a ∈ as, P a.name a.value := by
    intro P
    constructor
    · rintro ⟨b, hb, hp⟩
      obtain ⟨a, ha, heq⟩ := hfrom b hb
      obtain ⟨hname, hvalue, -⟩ := Attribute.content_eq_iff.mp heq
      exact ⟨a, ha, hname ▸ hvalue ▸ hp⟩
    · rintro ⟨a, ha, hp⟩
      obtain ⟨b, hb, heq⟩ := hto a ha
      obtain ⟨hname, hvalue, -⟩ := Attribute.content_eq_iff.mp heq
      exact ⟨b, hb, hname ▸ hvalue ▸ hp⟩
  refine ⟨hbs, fun name hname => Option.ext fun v => ?_, ?_⟩
  · rw [hbs.find?_eq_some hname, h.find?_eq_some hname]
    exact hcarry (P := fun n w => n = name ∧ w = v)
  · refine (List.perm_ext_iff_of_nodup (nodup_importsOf _) (nodup_importsOf _)).mpr fun i => ?_
    rw [mem_importsOf, mem_importsOf]
    exact hcarry (P := fun n w => n = "import" ∧ i ∈ importNames w)

-- What is accepted in one order is accepted in another one, and gives the same settings.
theorem reconcile_of_same {t' : Tree} (ht : t.WellFormed) (ht' : t'.WellFormed)
    (hencodings : ∀ e ∈ t'.openEncodings, e ∈ t.openEncodings)
    (hnames : ∀ a ∈ t.directed.map Tree.Declaration.attr, a.name ≠ "pageEncoding")
    (hsame : ∀ c, c ∈ (t.directed.map Tree.Declaration.attr).map Attribute.content ↔
      c ∈ (t'.directed.map Tree.Declaration.attr).map Attribute.content)
    {s : Settings} (h : reconcile t o = .ok s) :
    ∃ s', reconcile t' o = .ok s' ∧ s' = { s with imports := s'.imports } ∧
      s'.imports.Perm s.imports ∧ s.imports.Nodup := by
  obtain ⟨hagree, hconsistent, hflushed, rfl⟩ := (reconcile_eq_ok_iff ht hnames).mp h
  obtain ⟨hconsistent', hfind, himports⟩ := hconsistent.of_same hsame
  have hnames' : ∀ a ∈ t'.directed.map Tree.Declaration.attr, a.name ≠ "pageEncoding" := by
    intro b hb
    obtain ⟨a, ha, heq⟩ := List.mem_map.mp ((hsame _).mpr (List.mem_map_of_mem hb))
    exact (Attribute.content_eq_iff.mp heq).1 ▸ hnames a ha
  refine ⟨_, (reconcile_eq_ok_iff ht' hnames').mpr
    ⟨fun e he => hagree e (hencodings e he), hconsistent', ?_, rfl⟩, ?_, himports,
    nodup_importsOf _⟩
  · rw [told_congr hfind]
    exact hflushed
  · rw [told_congr hfind]
    rfl

-- Two trees with the same units outside of page directives, whose page directives say the same
-- things in whatever order and in whichever units, are accepted or refused alike, and have the
-- same settings apart from the order of the imports.
theorem reconcile_perm {t t' : Tree} (o : Options) (ht : t.WellFormed) (ht' : t'.WellFormed)
    (hapart : t.DirectivesApart) (hapart' : t'.DirectivesApart)
    (hencodings : ∀ e, e ∈ t.openEncodings ↔ e ∈ t'.openEncodings)
    (hnames : ∀ a ∈ t.directiveAttributes, a.name ≠ "pageEncoding")
    (hperm : (t.directiveAttributes.map Attribute.content).Perm
      (t'.directiveAttributes.map Attribute.content)) :
    ((∃ s, reconcile t o = .ok s) ↔ ∃ s', reconcile t' o = .ok s') ∧
      ∀ s s', reconcile t o = .ok s → reconcile t' o = .ok s' →
        s' = { s with imports := s'.imports } ∧ s'.imports.Perm s.imports ∧
          s.imports.Nodup ∧ s'.imports.Nodup := by
  have hall := ht.directed_perm hapart
  have hall' := ht'.directed_perm hapart'
  have hsame : ∀ c, c ∈ (t.directed.map Tree.Declaration.attr).map Attribute.content ↔
      c ∈ (t'.directed.map Tree.Declaration.attr).map Attribute.content := fun c =>
    ((hall.map _).trans (hperm.trans (hall'.map _).symm)).mem_iff
  have htaken : ∀ a ∈ t.directed.map Tree.Declaration.attr, a.name ≠ "pageEncoding" :=
    fun a ha => hnames a (hall.mem_iff.mp ha)
  have htaken' : ∀ b ∈ t'.directed.map Tree.Declaration.attr, b.name ≠ "pageEncoding" := by
    intro b hb
    obtain ⟨a, ha, heq⟩ := List.mem_map.mp ((hsame _).mpr (List.mem_map_of_mem hb))
    exact (Attribute.content_eq_iff.mp heq).1 ▸ htaken a ha
  have hto : ∀ {s}, reconcile t o = .ok s → ∃ s', reconcile t' o = .ok s' ∧
      s' = { s with imports := s'.imports } ∧ s'.imports.Perm s.imports ∧ s.imports.Nodup :=
    fun h => reconcile_of_same ht ht' (fun e he => (hencodings e).mpr he) htaken hsame h
  refine ⟨⟨?_, ?_⟩, fun s s' h h' => ?_⟩
  · rintro ⟨s, h⟩
    obtain ⟨s', h', -⟩ := hto h
    exact ⟨s', h'⟩
  · rintro ⟨s', h'⟩
    obtain ⟨s, h, -⟩ := reconcile_of_same ht' ht (fun e he => (hencodings e).mp he) htaken'
      (fun c => (hsame c).symm) h'
    exact ⟨s, h⟩
  · obtain ⟨s'', h'', heq, himports, hnodup⟩ := hto h
    obtain rfl : s' = s'' := Except.ok.inj (h'.symm.trans h'')
    exact ⟨heq, himports, hnodup, himports.nodup_iff.mpr hnodup⟩

end Settings

-- A page directive in front of a unit with another one, and all of it the other way round.
def directiveUnits : Loader :=
  .ofUnits
    [("/front.page", Utf8.ofString
        ("<%@ page import=\"a.B, c.D\" session=\"false\" %><%@ include file=\"/low.page\" %>" ++
          "<%@ page session=\"false\" %>")),
      ("/low.page", Utf8.ofString "<%@ page buffer=\"none\" %>"),
      ("/back.page", Utf8.ofString
        "<%@ page session=\"false\" buffer=\"none\" %><%@ include file=\"/high.page\" %>"),
      ("/high.page", Utf8.ofString "<%@ page session=\"false\" import=\"a.B, c.D\" %>")]

theorem Settings.reconcile_perm_sample :
    ∃ page page' resolver resolver' s s',
      Page.read {} directiveUnits (.ofLibraries []) "/front.page" = (.ok page, resolver) ∧
      Page.read {} directiveUnits (.ofLibraries []) "/back.page" = (.ok page', resolver') ∧
      page.tree.DirectivesApart ∧ page'.tree.DirectivesApart ∧
      (page.tree.directiveAttributes.map Attribute.content).Perm
        (page'.tree.directiveAttributes.map Attribute.content) ∧
      reconcile page.tree {} = .ok s ∧ reconcile page'.tree {} = .ok s' ∧
      s' = { s with imports := s'.imports } ∧ s'.imports.Perm s.imports := by
  have hrun : Page.passes {} directiveUnits (.ofLibraries []) "/front.page" (fun page =>
      page.tree.DirectivesApart &&
        page.tree.openEncodings == [{ effective := "UTF-8" }, { effective := "UTF-8" }] &&
        page.tree.directiveAttributes.map Attribute.content ==
          [("import", "a.B, c.D", false), ("session", "false", false), ("buffer", "none", false),
            ("session", "false", false)] &&
        (reconcile page.tree {}).toOption.isSome) := by
    rw [directiveUnits, Utf8.ofString_append]
    repeat rw [Utf8.ofString_ofList]
    decide +kernel
  have hrun' : Page.passes {} directiveUnits (.ofLibraries []) "/back.page" (fun page =>
      page.tree.DirectivesApart &&
        page.tree.openEncodings == [{ effective := "UTF-8" }, { effective := "UTF-8" }] &&
        page.tree.directiveAttributes.map Attribute.content ==
          [("session", "false", false), ("buffer", "none", false), ("session", "false", false),
            ("import", "a.B, c.D", false)]) := by
    rw [directiveUnits, Utf8.ofString_append]
    repeat rw [Utf8.ofString_ofList]
    decide +kernel
  obtain ⟨page, resolver, h, htest⟩ := Page.of_passes hrun
  obtain ⟨page', resolver', h', htest'⟩ := Page.of_passes hrun'
  simp only [Bool.and_eq_true, decide_eq_true_eq, beq_iff_eq] at htest htest'
  obtain ⟨⟨⟨hapart, hopen⟩, hattributes⟩, hpasses⟩ := htest
  obtain ⟨⟨hapart', hopen'⟩, hattributes'⟩ := htest'
  have hperm : (page.tree.directiveAttributes.map Attribute.content).Perm
      (page'.tree.directiveAttributes.map Attribute.content) := by
    rw [hattributes, hattributes']
    decide
  have hnames : ∀ a ∈ page.tree.directiveAttributes, a.name ≠ "pageEncoding" := by
    have hcontents : ∀ c ∈ page.tree.directiveAttributes.map Attribute.content,
        c.1 ≠ "pageEncoding" := by
      rw [hattributes]
      decide
    exact fun a ha => hcontents _ (List.mem_map_of_mem ha)
  obtain ⟨hiff, hsettings⟩ := reconcile_perm {} (Page.wellFormed_read h) (Page.wellFormed_read h')
    hapart hapart' (fun e => by rw [hopen, hopen']) hnames hperm
  cases hreconcile : reconcile page.tree {} with
  | error d =>
    rw [hreconcile] at hpasses
    cases hpasses
  | ok s =>
    obtain ⟨s', hreconcile'⟩ := hiff.mp ⟨s, hreconcile⟩
    obtain ⟨heq, himports, -⟩ := hsettings s s' hreconcile hreconcile'
    exact ⟨page, page', resolver, resolver', s, s', h, h', hapart, hapart', hperm, hreconcile,
      hreconcile', heq, himports⟩

-- A unit whose byte order mark and XML declaration differ, included inside of a page directive, and
-- the same unit next to the directive.
def misnamedUnits : Loader :=
  .ofUnits
    [("/inside.pagx", Utf8.ofString
        ("<b><jsp:directive.page><jsp:directive.include file=\"x.pagx\"/></jsp:directive.page>" ++
          "</b>")),
      ("/beside.pagx", Utf8.ofString
        "<b><jsp:directive.page/><jsp:directive.include file=\"x.pagx\"/></b>"),
      ("/x.pagx", 0xEF :: 0xBB :: 0xBF :: Utf8.ofString
        "<?xml version=\"1.0\" encoding=\"ISO-8859-1\"?><b/>")]

def misnamedEncodings : List EncodingInfo :=
  [{ effective := "UTF-8" },
    { effective := "UTF-8", byteOrderMark := some "UTF-8", prolog := some "ISO-8859-1" }]

-- What is included inside of a page directive is not looked at.
theorem Settings.reconcile_inside_directive :
    ∃ page page' resolver resolver',
      Page.read {} misnamedUnits (.ofLibraries []) "/inside.pagx" = (.ok page, resolver) ∧
      Page.read {} misnamedUnits (.ofLibraries []) "/beside.pagx" = (.ok page', resolver') ∧
      page.tree.DirectivesApart ∧ page'.tree.DirectivesApart ∧
      page.tree.directiveAttributes = [] ∧ page'.tree.directiveAttributes = [] ∧
      page.tree.unitEncodings = page'.tree.unitEncodings ∧
      (∃ s, reconcile page.tree {} = .ok s) ∧ ¬∃ s, reconcile page'.tree {} = .ok s := by
  have hrun : Page.passes {} misnamedUnits (.ofLibraries []) "/inside.pagx" (fun page =>
      page.tree.DirectivesApart && page.tree.directiveAttributes == [] &&
        page.tree.unitEncodings == misnamedEncodings &&
        (reconcile page.tree {}).toOption.isSome) := by
    rw [misnamedUnits, Utf8.ofString_append]
    repeat rw [Utf8.ofString_ofList]
    decide +kernel
  have hrun' : Page.passes {} misnamedUnits (.ofLibraries []) "/beside.pagx" (fun page =>
      page.tree.DirectivesApart && page.tree.directiveAttributes == [] &&
        page.tree.unitEncodings == misnamedEncodings &&
        (reconcile page.tree {}).toOption.isNone) := by
    rw [misnamedUnits, Utf8.ofString_append]
    repeat rw [Utf8.ofString_ofList]
    decide +kernel
  obtain ⟨page, resolver, h, htest⟩ := Page.of_passes hrun
  obtain ⟨page', resolver', h', htest'⟩ := Page.of_passes hrun'
  simp only [Bool.and_eq_true, decide_eq_true_eq, beq_iff_eq] at htest htest'
  obtain ⟨⟨⟨hapart, hnone⟩, hunits⟩, hpasses⟩ := htest
  obtain ⟨⟨⟨hapart', hnone'⟩, hunits'⟩, hfails⟩ := htest'
  refine ⟨page, page', resolver, resolver', h, h', hapart, hapart', hnone, hnone',
    hunits.trans hunits'.symm, ?_, ?_⟩
  · cases hreconcile : reconcile page.tree {} with
    | error d =>
      rw [hreconcile] at hpasses
      cases hpasses
    | ok s => exact ⟨s, rfl⟩
  · rintro ⟨s, hreconcile⟩
    rw [hreconcile] at hfails
    cases hfails

end PageCompiler
