import PageCompiler.Compilation

namespace PageCompiler

open Text

-- A template from its front on. All its actions belong to one library and go by their names there.
inductive Template where
  | nil
  | text (value : List Char) (rest : Template)
  -- An expression, without its delimiters.
  | insert (source : List Char) (rest : Template)
  | script (kind : ScriptKind) (code : List Char) (rest : Template)
  -- An action without a body.
  | empty (name : List Char) (attrs : List (List Char × List Char)) (rest : Template)
  | element (name : List Char) (attrs : List (List Char × List Char)) (body rest : Template)
  deriving Repr

namespace Template

-- None of the given characters occurs.
def lacks (others s : List Char) : Bool := s.all fun c => !others.contains c

theorem ne_of_lacks {others s : List Char} (h : lacks others s) {c d : Char} (hc : c ∈ s)
    (hd : d ∈ others) : c ≠ d := by
  rintro rfl
  have hno := List.all_eq_true.mp h c hc
  simp [hd] at hno

theorem lacks_cons {others s : List Char} {c : Char} (h : lacks others (c :: s)) :
    lacks others s := by
  rw [lacks, List.all_cons, Bool.and_eq_true] at h
  exact h.2

theorem lacks_append {others v w : List Char} (hv : lacks others v) (hw : lacks others w) :
    lacks others (v ++ w) := by
  rw [lacks, List.all_append, Bool.and_eq_true]
  exact ⟨hv, hw⟩

theorem lacks_mono {others fewer w : List Char} (h : lacks others w)
    (hsub : fewer.all others.contains) : lacks fewer w := by
  refine List.all_eq_true.mpr fun c hc => ?_
  simp only [Bool.not_eq_true', List.contains_eq_mem, decide_eq_false_iff_not]
  intro hm
  have hother := List.all_eq_true.mp hsub c hm
  exact ne_of_lacks h hc (by simpa using hother) rfl

def isText (s : List Char) : Bool := lacks ['<', '>', '&', '\\', '$', '#', '\r'] s

def isInsert (s : List Char) : Bool := (Expression.parse s).isOk && lacks ['<', '&'] s

def isCode (s : List Char) : Bool := lacks ['<', '&', '%'] s

def isName (s : List Char) : Bool := !s.isEmpty && s.all Cursor.isTagNameChar

-- What stands between double quotes.
def isValue (s : List Char) : Bool :=
  lacks ['<', '&', '"', '\'', '\\', '%', '\n', '\r', '\t'] s

-- An attribute that declares no namespace.
def isAttribute (a : List Char × List Char) : Bool :=
  isName a.1 && a.1 != "xmlns".toList && !startsWith "xmlns:".toList a.1 && isValue a.2

def isLegal : Template → Bool
  | nil => true
  | text value rest => isText value && rest.isLegal
  | insert source rest => isInsert source && rest.isLegal
  | script _ code rest => isCode code && rest.isLegal
  | empty name attrs rest => isName name && attrs.all isAttribute && rest.isLegal
  | element name attrs body rest =>
    isName name && attrs.all isAttribute && body.isLegal && rest.isLegal

-- The names of all actions.
def actions : Template → List String
  | nil => []
  | text _ rest | insert _ rest | script _ _ rest => rest.actions
  | empty name _ rest => String.ofList name :: rest.actions
  | element name _ body rest => String.ofList name :: (body.actions ++ rest.actions)

-- None of the named actions leaves its body to its handler as it is.
def Structured (resolver : Resolver) (ref : LibraryRef) (names : List String) : Prop :=
  ∀ library, (resolver.resolve ref).1 = .ok (some library) → ∀ name ∈ names, ∀ tag,
    library.tag? name = some tag → tag.bodyContent ≠ .verbatim

theorem Structured.mono {resolver : Resolver} {ref : LibraryRef} {names fewer : List String}
    (h : Structured resolver ref names) (hsub : fewer ⊆ names) : Structured resolver ref fewer :=
  fun library hl name hname => h library hl name (hsub hname)

def attributeText (a : List Char × List Char) : List Char :=
  ' ' :: (a.1 ++ '=' :: '"' :: (a.2 ++ ['"']))

def attributesText (attrs : List (List Char × List Char)) : List Char := attrs.flatMap attributeText

def attributePairs (attrs : List (List Char × List Char)) : List (String × String) :=
  attrs.map fun a => (String.ofList a.1, String.ofList a.2)

-- The attributes that have been read are those written, and none of them is raw code.
def Given (attrs : List (List Char × List Char)) (read : List Attribute) : Prop :=
  (read.map fun a => (a.name, a.value)) = attributePairs attrs ∧ ∀ a ∈ read, a.scripting = false

def qualified (space name : List Char) : List Char := space ++ ':' :: name

-- A tag without its brackets.
def tagText (name : List Char) (attrs : List (List Char × List Char)) : List Char :=
  name ++ attributesText attrs

def endTagText (name : List Char) : List Char := '<' :: '/' :: (name ++ ['>'])

def insertText (source : List Char) : List Char := '$' :: '{' :: (source ++ ['}'])

theorem lacks_insertText {source : List Char} (h : isInsert source) :
    lacks ['<', '&'] (insertText source) := by
  simp only [isInsert, Bool.and_eq_true] at h
  exact lacks_append (v := ['$', '{']) rfl (lacks_append h.2 rfl)

-- What the two forms have in common: the prefix of the library, and how raw code is written.
def write (script : ScriptKind → List Char → List Char) (space : List Char) :
    Template → List Char
  | nil => []
  | text value rest => value ++ rest.write script space
  | insert source rest => insertText source ++ rest.write script space
  | .script kind code rest => script kind code ++ rest.write script space
  | empty name attrs rest =>
    '<' :: (tagText (qualified space name) attrs ++ '/' :: '>' :: rest.write script space)
  | element name attrs body rest =>
    '<' :: (tagText (qualified space name) attrs ++ '>' ::
      (body.write script space ++
        (endTagText (qualified space name) ++ rest.write script space)))

end Template

open Template

-- How a library is referred to in both forms. Some addresses mean something else in a document.
def LibraryRef.isPortable : LibraryRef → Bool
  | .uri address =>
    isValue address.toList && address != Strict.standardUri &&
      !begins Strict.directoryUrn address
  | .tagDirectory directory => isValue directory.toList

def isPortableSpace (space : List Char) : Bool := isName space && !space.contains ':'

-- A prefix that can stand for a library.
structure Usable (space : List Char) : Prop where
  portable : isPortableSpace space
  not_standard : space ≠ "jsp".toList

theorem Usable.ne_standardSpace {space : List Char} (h : Usable space) :
    String.ofList space ≠ Builder.standardSpace := by
  intro heq
  exact h.not_standard (by rw [← String.toList_ofList (l := space), heq]; rfl)

namespace Relaxed

def sign : ScriptKind → List Char
  | .declaration => ['!']
  | .expression => ['=']
  | .scriptlet => []

-- Statements that would be taken for another construct are set off by a blank.
def gap (kind : ScriptKind) (code : List Char) : List Char :=
  if kind = .scriptlet && ["!", "=", "@", "--"].any fun s => startsWith s.toList code then [' ']
  else []

def scriptCode (kind : ScriptKind) (code : List Char) : List Char :=
  '<' :: '%' :: (sign kind ++ (gap kind code ++ (code ++ ['%', '>'])))

def refName : LibraryRef → String
  | .uri _ => "uri"
  | .tagDirectory _ => "tagdir"

def refAttribute (ref : LibraryRef) : List Char × List Char :=
  ((refName ref).toList, ref.written.toList)

-- A template behind the directive that binds its library.
def pageText (space : List Char) (ref : LibraryRef) (template : Template) : List Char :=
  "<%@ taglib".toList ++
    (attributesText [("prefix".toList, space), refAttribute ref] ++
      (" %>".toList ++ template.write scriptCode space))

end Relaxed

namespace Strict

def scriptElement (kind : ScriptKind) (code : List Char) : List Char :=
  '<' :: (kind.elementName.toList ++ '>' :: (code ++ endTagText kind.elementName.toList))

-- The namespace of a library.
def refUri : LibraryRef → List Char
  | .uri address => address.toList
  | .tagDirectory directory => directoryUrn.toList ++ directory.toList

def rootAttributes (space : List Char) (ref : LibraryRef) (version : List Char) :
    List (List Char × List Char) :=
  [("xmlns:jsp".toList, standardUri.toList), ("xmlns:".toList ++ space, refUri ref),
    ("version".toList, version)]

-- A template inside of a root element that binds its library.
def pageText (space : List Char) (ref : LibraryRef) (version : List Char) (template : Template) :
    List Char :=
  '<' :: (tagText "jsp:root".toList (rootAttributes space ref version) ++ '>' ::
    (template.write scriptElement space ++ endTagText "jsp:root".toList))

end Strict
end PageCompiler
