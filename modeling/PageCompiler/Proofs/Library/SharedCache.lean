import PageCompiler.Library.Resolver
import PageCompiler.Proofs.Checking.Established

namespace PageCompiler

open Text
open Checking (bind_eq_ok)

-- References for which the same library is read from the same place.
def LibraryRef.Alike : LibraryRef → LibraryRef → Prop
  | .uri _, .uri _ => True
  | .tagDirectory d, .tagDirectory d' => dropTrailing '/' d = dropTrailing '/' d'
  | _, _ => False

namespace Resolver

-- The path that leads to the library, for a library that has to be read.
def path? (r : Resolver) (ref : LibraryRef) : Option String :=
  if (r.registered.lookup ref.key).isSome then none
  else
    match ref with
    | .uri uri =>
      (r.mapped.lookup uri).or
        ((if isDescriptor uri then r.underRoots? uri else none).or (r.buildIndex.lookup uri))
    | .tagDirectory directory =>
      (r.underRoots? (dropTrailing '/' directory)).filter r.files.isDirectory

-- The place in the cache.
def place? (r : Resolver) (ref : LibraryRef) : Option String :=
  (r.path? ref).map fun path => (r.files.canonical? path).getD path

-- What a reference makes of a place.
def readAt (files : FileSystem) (ref : LibraryRef) (key : String) : Except Diagnostic Library :=
  match ref with
  | .uri _ => readLibrary files key
  | .tagDirectory directory => readDirectory files (dropTrailing '/' directory) key

-- The library that a call would keep for a place.
def delivered? (r : Resolver) (key : String) (ref : LibraryRef) : Option Library :=
  if r.place? ref = some key then (readAt r.files ref key).toOption else none

-- The index has not been made, or is that of the search roots.
def Indexed (r : Resolver) (index : Option (List (String × String))) : Prop :=
  index = none ∨ index = some r.buildIndex

-- What the cache and a reading give together, and the cache that is left.
def keep (cache : List (String × Library)) (key : String) (read : Except Diagnostic Library) :
    Except Diagnostic Library × List (String × Library) :=
  match cache.lookup key with
  | some library => (.ok library, cache)
  | none =>
    match read with
    | .error d => (.error d, cache)
    | .ok library => (.ok library, cache ++ [(key, library)])

-- What a call gives, and the cache that it leaves.
def answer (r : Resolver) (ref : LibraryRef) :
    Except Diagnostic (Option Library) × List (String × Library) :=
  match r.registered.lookup ref.key with
  | some library => (.ok (some library), r.cache)
  | none =>
    match r.place? ref with
    | none => (.ok none, r.cache)
    | some key =>
      let kept := keep r.cache key (readAt r.files ref key)
      (kept.1.map some, kept.2)

theorem keep_fst (cache : List (String × Library)) (key : String)
    (read : Except Diagnostic Library) :
    (keep cache key read).1 = ((cache.lookup key).map .ok).getD read := by
  unfold keep
  cases cache.lookup key with
  | some library => rfl
  | none => cases read <;> rfl

theorem load_eq (r : Resolver) (path : String)
    (read : FileSystem → String → Except Diagnostic Library) :
    let key := (r.files.canonical? path).getD path
    let kept := keep r.cache key (read r.files key)
    r.load path read = (kept.1.map fun l => (l, .file key), { r with cache := kept.2 }) := by
  unfold load
  generalize (r.files.canonical? path).getD path = key
  dsimp only [keep]
  cases r.cache.lookup key with
  | some library => rfl
  | none => cases read r.files key <;> rfl

-- What a call that has been led to a path comes to.
theorem answer_of_path {r : Resolver} {ref : LibraryRef} {path : String}
    (hnew : r.registered.lookup ref.key = none) (hpath : r.path? ref = some path) :
    let key := (r.files.canonical? path).getD path
    let kept := keep r.cache key (readAt r.files ref key)
    r.answer ref = (kept.1.map some, kept.2) := by
  have hplace : r.place? ref = some ((r.files.canonical? path).getD path) := by
    rw [place?, hpath, Option.map_some]
  rw [answer, hnew, hplace]

theorem answer_of_none {r : Resolver} {ref : LibraryRef}
    (hnew : r.registered.lookup ref.key = none) (hpath : r.path? ref = none) :
    r.answer ref = (.ok none, r.cache) := by
  have hplace : r.place? ref = none := by
    rw [place?, hpath, Option.map_none]
  rw [answer, hnew, hplace]

theorem resolveUri_eq {r : Resolver} (hindex : r.Indexed r.index) {uri : String}
    (hnew : r.registered.lookup (LibraryRef.uri uri).key = none) :
    ∃ found index, r.Indexed index ∧
      r.resolveUri uri = (found, { r with cache := (r.answer (.uri uri)).2, index }) ∧
        (found.map fun f => f.map Prod.fst) = (r.answer (.uri uri)).1 := by
  have hgetD : r.index.getD r.buildIndex = r.buildIndex := by
    rcases hindex with h | h <;> rw [h] <;> rfl
  unfold resolveUri
  dsimp only
  rw [hgetD]
  cases hmapped : r.mapped.lookup uri with
  | some path =>
    have hpath : r.path? (.uri uri) = some path := by simp [path?, hnew, hmapped]
    dsimp only
    rw [load_eq, answer_of_path hnew hpath]
    refine ⟨_, r.index, hindex, rfl, ?_⟩
    dsimp only [readAt]
    cases (keep r.cache _ (readLibrary r.files _)).1 <;> rfl
  | none =>
    cases hroots : (if isDescriptor uri then r.underRoots? uri else none) with
    | some path =>
      have hpath : r.path? (.uri uri) = some path := by simp [path?, hnew, hmapped, hroots]
      dsimp only
      rw [load_eq, answer_of_path hnew hpath]
      refine ⟨_, r.index, hindex, rfl, ?_⟩
      dsimp only [readAt]
      cases (keep r.cache _ (readLibrary r.files _)).1 <;> rfl
    | none =>
      have hpath : r.path? (.uri uri) = r.buildIndex.lookup uri := by
        simp [path?, hnew, hmapped, hroots]
      cases hlookup : r.buildIndex.lookup uri with
      | none =>
        rw [answer_of_none hnew (hpath.trans hlookup)]
        exact ⟨_, some r.buildIndex, .inr rfl, rfl, rfl⟩
      | some path =>
        dsimp only
        rw [load_eq, answer_of_path hnew (hpath.trans hlookup)]
        refine ⟨_, some r.buildIndex, .inr rfl, rfl, ?_⟩
        dsimp only [readAt]
        cases (keep r.cache _ (readLibrary r.files _)).1 <;> rfl

theorem resolveDirectory_eq {r : Resolver} {directory : String}
    (hnew : r.registered.lookup (LibraryRef.tagDirectory directory).key = none) :
    ∃ found,
      r.resolveDirectory directory =
        (found, { r with cache := (r.answer (.tagDirectory directory)).2 }) ∧
        (found.map fun f => f.map Prod.fst) = (r.answer (.tagDirectory directory)).1 := by
  have hpath : r.path? (.tagDirectory directory) =
      (r.underRoots? (dropTrailing '/' directory)).filter r.files.isDirectory := by
    simp [path?, hnew]
  unfold resolveDirectory
  dsimp only
  cases hroots : (r.underRoots? (dropTrailing '/' directory)).filter r.files.isDirectory with
  | none =>
    rw [answer_of_none hnew (hpath.trans hroots)]
    exact ⟨_, rfl, rfl⟩
  | some path =>
    dsimp only
    rw [load_eq, answer_of_path hnew (hpath.trans hroots)]
    refine ⟨_, rfl, ?_⟩
    dsimp only [readAt]
    cases (keep r.cache _ (readDirectory r.files _ _)).1 <;> rfl

-- A call changes the cache and the index only.
theorem resolve_eq {r : Resolver} (hindex : r.Indexed r.index) (ref : LibraryRef) :
    ∃ index, r.Indexed index ∧
      r.resolve ref = ((r.answer ref).1, { r with cache := (r.answer ref).2, index }) := by
  unfold resolve locate
  cases hnew : r.registered.lookup ref.key with
  | some library =>
    have hanswer : r.answer ref = (.ok (some library), r.cache) := by rw [answer, hnew]
    rw [hanswer]
    exact ⟨r.index, hindex, rfl⟩
  | none =>
    cases ref with
    | uri uri =>
      obtain ⟨found, index, hindex, hresolve, hfound⟩ := resolveUri_eq hindex hnew
      dsimp only
      rw [hresolve, ← hfound]
      exact ⟨index, hindex, rfl⟩
    | tagDirectory directory =>
      obtain ⟨found, hresolve, hfound⟩ := resolveDirectory_eq hnew
      dsimp only
      rw [hresolve, ← hfound]
      exact ⟨r.index, hindex, rfl⟩

-- What a call keeps comes behind what has been kept, each place once.
theorem lookup_answer (r : Resolver) (ref : LibraryRef) (key : String) :
    (r.answer ref).2.lookup key = (r.cache.lookup key).or (r.delivered? key ref) := by
  unfold answer delivered?
  cases hnew : r.registered.lookup ref.key with
  | some library =>
    have hplace : r.place? ref = none := by simp [place?, path?, hnew]
    simp [hplace]
  | none =>
    cases hplace : r.place? ref with
    | none => simp
    | some place =>
      dsimp only [keep]
      by_cases hkey : place = key
      · subst hkey
        cases hcache : r.cache.lookup place with
        | some library => simp [hcache]
        | none => cases readAt r.files ref place <;> simp [List.lookup_append, hcache, Except.toOption]
      · have hne : (key == place) = false := by simpa using fun h : key = place => hkey h.symm
        have hsame : ∀ library, (r.cache ++ [(place, library)]).lookup key = r.cache.lookup key := by
          intro library
          simp [List.lookup_append, List.lookup_cons, hne]
        cases r.cache.lookup place with
        | some library => simp [hkey]
        | none => cases readAt r.files ref place <;> simp [hsame, hkey]

theorem answer_of_place {r : Resolver} {ref : LibraryRef} {key : String}
    (h : r.place? ref = some key) :
    (r.answer ref).1 = (keep r.cache key (readAt r.files ref key)).1.map some := by
  have hnew : r.registered.lookup ref.key = none := by
    cases hregistered : r.registered.lookup ref.key with
    | none => rfl
    | some library => simp [place?, path?, hregistered] at h
  rw [answer, hnew, h]

theorem uri_of_foldlM {files : FileSystem} {directory : String} {paths : List String}
    {start library : Library}
    (h : paths.foldlM (addTagFile files directory) start = .ok library) :
    library.uri = start.uri := by
  induction paths generalizing start with
  | nil =>
    cases h
    rfl
  | cons path paths ih =>
    rw [List.foldlM_cons] at h
    obtain ⟨next, hnext, hrest⟩ := bind_eq_ok.mp h
    rw [ih hrest]
    unfold addTagFile at hnext
    split at hnext
    · cases hnext
      rfl
    · split at hnext
      · cases hnext
      · split at hnext <;> cases hnext
        rfl

theorem readDirectory_eq_ok {files : FileSystem} {directory path : String} {library : Library}
    (h : readDirectory files directory path = .ok library) :
    library.uri = LibraryRef.directoryUri directory ∧
      ∃ names, files.find path = .ok (.directory names) := by
  unfold readDirectory at h
  cases hlist : files.list path with
  | error e =>
    rw [hlist] at h
    cases h
  | ok entries =>
    rw [hlist] at h
    refine ⟨uri_of_foldlM h, ?_⟩
    unfold FileSystem.list at hlist
    obtain ⟨entry, hentry, hlist⟩ := bind_eq_ok.mp hlist
    cases entry with
    | directory names => exact ⟨names, hentry⟩
    | file names content => cases hlist

theorem readLibrary_eq_ok {files : FileSystem} {path : String} {library : Library}
    (h : readLibrary files path = .ok library) :
    ∃ names content, files.find path = .ok (.file names content) := by
  obtain ⟨descriptor, hdescriptor, -⟩ := bind_eq_ok.mp h
  unfold readDescriptor at hdescriptor
  cases htext : files.readText path with
  | error e =>
    rw [htext] at hdescriptor
    cases hdescriptor
  | ok text =>
    obtain ⟨bytes, hbytes, -⟩ := bind_eq_ok.mp htext
    obtain ⟨entry, hentry, hread⟩ := bind_eq_ok.mp hbytes
    cases entry with
    | file names content => exact ⟨names, content, hentry⟩
    | directory names => cases hread

-- The library of a place tells which references it has been read for.
theorem readAt_eq_iff_alike {files : FileSystem} {ref other : LibraryRef} {key : String}
    {library : Library} (h : readAt files other key = .ok library) :
    readAt files ref key = .ok library ↔ other.Alike ref := by
  cases other with
  | uri name =>
    obtain ⟨names, content, hfile⟩ := readLibrary_eq_ok h
    cases ref with
    | uri name' => exact ⟨fun _ => trivial, fun _ => h⟩
    | tagDirectory directory =>
      refine ⟨fun hread => ?_, fun halike => halike.elim⟩
      obtain ⟨-, place, hdirectory⟩ := readDirectory_eq_ok hread
      rw [hfile] at hdirectory
      cases hdirectory
  | tagDirectory directory =>
    obtain ⟨huri, place, hdirectory⟩ := readDirectory_eq_ok h
    cases ref with
    | uri name =>
      refine ⟨fun hread => ?_, fun halike => halike.elim⟩
      obtain ⟨names, content, hfile⟩ := readLibrary_eq_ok hread
      rw [hdirectory] at hfile
      cases hfile
    | tagDirectory directory' =>
      constructor
      · intro hread
        have huris := huri.symm.trans (readDirectory_eq_ok hread).1
        exact (String.append_right_inj _).mp huris
      · intro halike
        rw [readAt, ← (halike : dropTrailing '/' directory = dropTrailing '/' directory')]
        exact h

-- The first reference of a history that a library was read for where this one leads to.
def reader? (r : Resolver) (history : List LibraryRef) (ref : LibraryRef) : Option LibraryRef :=
  (r.place? ref).bind fun key => history.find? fun other => (r.delivered? key other).isSome

theorem delivered?_eq_some {r : Resolver} {key : String} {ref : LibraryRef} {library : Library}
    (h : r.delivered? key ref = some library) :
    r.place? ref = some key ∧ readAt r.files ref key = .ok library := by
  unfold delivered? at h
  split at h
  · rename_i hplace
    refine ⟨hplace, ?_⟩
    cases hread : readAt r.files ref key with
    | error d =>
      rw [hread] at h
      cases h
    | ok found =>
      rw [hread] at h
      cases h
      rfl
  · cases h

theorem findSome?_delivered? (r : Resolver) (key : String) (history : List LibraryRef) :
    history.findSome? (r.delivered? key) =
      (history.find? fun other => (r.delivered? key other).isSome).bind (r.delivered? key) := by
  induction history with
  | nil => rfl
  | cons ref rest ih =>
    rw [List.findSome?_cons, List.find?_cons]
    cases hdelivered : r.delivered? key ref with
    | none => simpa using ih
    | some library => simp [hdelivered]

theorem reader?_of_place {r : Resolver} {ref : LibraryRef} {key : String}
    (history : List LibraryRef) (h : r.place? ref = some key) :
    (r.reader? history ref).bind (r.delivered? key) = history.findSome? (r.delivered? key) := by
  rw [findSome?_delivered?, reader?, h, Option.bind_some]

-- The reader has read a library where the reference leads to.
theorem reader?_eq_some {r : Resolver} {history : List LibraryRef} {ref other : LibraryRef}
    {key : String} (hplace : r.place? ref = some key) (h : r.reader? history ref = some other) :
    ∃ library, r.delivered? key other = some library ∧ r.place? other = some key ∧
      readAt r.files other key = .ok library := by
  rw [reader?, hplace, Option.bind_some] at h
  have hsome := List.find?_some h
  obtain ⟨library, hdelivered⟩ := Option.isSome_iff_exists.mp hsome
  exact ⟨library, hdelivered, delivered?_eq_some hdelivered⟩

theorem map_some_eq_ok {read : Except Diagnostic Library} {library : Library} :
    read.map some = .ok (some library) ↔ read = .ok library := by
  cases read <;> simp [Except.map]

end Resolver

-- Each page has an index of its own; the cache is for all of them.
structure Sharing where
  cache : List (String × Library) := []
  index : Nat → Option (List (String × String)) := fun _ => none

namespace Sharing

-- The resolver of one of the pages.
def resolver (s : Sharing) (r : Resolver) (page : Nat) : Resolver :=
  { r with cache := s.cache, index := s.index page }

-- A page resolves a reference.
def call (r : Resolver) (s : Sharing) (turn : Nat × LibraryRef) : Sharing :=
  let left := ((s.resolver r turn.1).resolve turn.2).2
  { cache := left.cache, index := fun page => if page = turn.1 then left.index else s.index page }

-- What is there after the calls of a history.
def after (r : Resolver) (history : List (Nat × LibraryRef)) : Sharing :=
  history.foldl (call r) {}

-- What the call of a page gives.
def library (s : Sharing) (r : Resolver) (page : Nat) (ref : LibraryRef) :
    Except Diagnostic (Option Library) :=
  ((s.resolver r page).resolve ref).1

def Indexed (s : Sharing) (r : Resolver) : Prop := ∀ page, r.Indexed (s.index page)

variable {r : Resolver} {s : Sharing}

theorem library_eq (h : s.Indexed r) (page : Nat) (ref : LibraryRef) :
    s.library r page ref = ({ r with cache := s.cache }.answer ref).1 := by
  obtain ⟨_, -, hresolve⟩ := (s.resolver r page).resolve_eq (h page) ref
  rw [library, hresolve]
  rfl

theorem Indexed.call (h : s.Indexed r) (turn : Nat × LibraryRef) :
    (call r s turn).Indexed r ∧
      ∀ key, (Sharing.call r s turn).cache.lookup key =
        (s.cache.lookup key).or (r.delivered? key turn.2) := by
  obtain ⟨index, hindex, hresolve⟩ := (s.resolver r turn.1).resolve_eq (h turn.1) turn.2
  constructor
  · intro page
    unfold Sharing.call
    rw [hresolve]
    dsimp only
    split
    · exact hindex
    · exact h page
  · intro key
    have hlookup := (s.resolver r turn.1).lookup_answer turn.2 key
    unfold Sharing.call
    rw [hresolve]
    exact hlookup

-- By induction on the history: the first call that delivers a library for a place decides.
theorem Indexed.foldl (h : s.Indexed r) (history : List (Nat × LibraryRef)) :
    (history.foldl (Sharing.call r) s).Indexed r ∧
      ∀ key, (history.foldl (Sharing.call r) s).cache.lookup key =
        (s.cache.lookup key).or ((history.map Prod.snd).findSome? (r.delivered? key)) := by
  induction history generalizing s with
  | nil => simpa using h
  | cons turn rest ih =>
    obtain ⟨hindexed, hcalled⟩ := h.call turn
    obtain ⟨hrest, hlookup⟩ := ih hindexed
    refine ⟨hrest, fun key => ?_⟩
    rw [List.foldl_cons, hlookup, hcalled, Option.or_assoc, List.map_cons, List.findSome?_cons]
    cases r.delivered? key turn.2 <;> rfl

theorem indexed_start (r : Resolver) : ({} : Sharing).Indexed r := fun _ => .inl rfl

theorem library_of_place (h : s.Indexed r) {ref : LibraryRef} {key : String} (page : Nat)
    (hplace : r.place? ref = some key) :
    s.library r page ref =
      (((s.cache.lookup key).map .ok).getD (Resolver.readAt r.files ref key)).map some := by
  have hanswer := Resolver.answer_of_place (r := { r with cache := s.cache }) hplace
  rw [library_eq h, hanswer, Resolver.keep_fst]

theorem library_start {ref : LibraryRef} {key : String} (page : Nat)
    (h : r.place? ref = some key) :
    ({} : Sharing).library r page ref = (Resolver.readAt r.files ref key).map some :=
  library_of_place (indexed_start r) page h

-- What has been kept for the place of a reference is what the first reader of it has read.
theorem lookup_after (history : List (Nat × LibraryRef)) {ref : LibraryRef} {key : String}
    (hplace : r.place? ref = some key) :
    (after r history).cache.lookup key =
      (r.reader? (history.map Prod.snd) ref).bind (r.delivered? key) := by
  rw [Resolver.reader?_of_place _ hplace]
  exact ((indexed_start r).foldl history).2 key

-- Where the library does not have to be read, the cache plays no part.
theorem library_of_place_eq_none (h : s.Indexed r) {ref : LibraryRef} (page : Nat)
    (hplace : r.place? ref = none) :
    s.library r page ref = ({} : Sharing).library r page ref := by
  have hnone : ∀ cache, ({ r with cache } : Resolver).place? ref = none := fun _ => hplace
  rw [library_eq h, library_eq (indexed_start r), Resolver.answer, Resolver.answer, hnone, hnone]
  cases r.registered.lookup ref.key <;> rfl

-- What a page gets after the calls of any history, its own and those of others, is what the first
-- reference that a library was read for at the same place gets at the start. So it is what the page
-- would have got at the start exactly if this reference is alike: both are uris, or both are
-- directories written in the same way but for slashes at the end.
theorem library_after (r : Resolver) (history : List (Nat × LibraryRef)) (page : Nat)
    (ref : LibraryRef) :
    let first := r.reader? (history.map Prod.snd) ref
    (after r history).library r page ref = ({} : Sharing).library r page (first.getD ref) ∧
      ((after r history).library r page ref = ({} : Sharing).library r page ref ↔
        ∀ other, first = some other → other.Alike ref) := by
  intro first
  have hindexed : (after r history).Indexed r := ((indexed_start r).foldl history).1
  cases hplace : r.place? ref with
  | none =>
    have hfirst : first = none := by simp [first, Resolver.reader?, hplace]
    have hsame := library_of_place_eq_none hindexed page hplace
    rw [hfirst]
    exact ⟨hsame, by simp [hsame]⟩
  | some key =>
    have hkept : (after r history).cache.lookup key = first.bind (r.delivered? key) :=
      lookup_after history hplace
    have hgiven := library_of_place hindexed page hplace
    rw [hkept] at hgiven
    cases hother : first with
    | none =>
      have hsame : (after r history).library r page ref = ({} : Sharing).library r page ref := by
        rw [hgiven, hother, library_start page hplace]
        rfl
      exact ⟨hsame, by simp [hsame]⟩
    | some other =>
      obtain ⟨library, hdelivered, hthere, hread⟩ := Resolver.reader?_eq_some hplace hother
      have hshared : (after r history).library r page ref = .ok (some library) := by
        rw [hgiven, hother, Option.bind_some, hdelivered]
        rfl
      rw [hshared, Option.getD_some, library_start page hthere, library_start page hplace, hread]
      refine ⟨rfl, ?_⟩
      rw [eq_comm, Resolver.map_some_eq_ok, Resolver.readAt_eq_iff_alike hread]
      simp

-- A directory with one tag file, below the only search root.
def tagSite : Resolver := { searchRoots := ["."], files := ⟨"", [(["t", "x.tag"], [])]⟩ }

-- Of two pages that spell the directory differently, the later one gets the library of the earlier.
theorem library_after_respelled :
    let shared := after tagSite [(0, .tagDirectory "/t")]
    shared.library tagSite 1 (.tagDirectory "t") ≠
        ({} : Sharing).library tagSite 1 (.tagDirectory "t") ∧
      shared.library tagSite 1 (.tagDirectory "t") =
        ({} : Sharing).library tagSite 1 (.tagDirectory "/t") := by
  have hfirst : tagSite.reader? [.tagDirectory "/t"] (.tagDirectory "t") =
      some (.tagDirectory "/t") := by decide +kernel
  obtain ⟨hgiven, hsame⟩ :=
    library_after tagSite [(0, .tagDirectory "/t")] 1 (.tagDirectory "t")
  refine ⟨fun h => ?_, hgiven.trans ?_⟩
  · have halike := hsame.mp h _ hfirst
    exact absurd (show dropTrailing '/' "/t" = dropTrailing '/' "t" from halike) (by decide)
  · rw [List.map_singleton, hfirst, Option.getD_some]

end Sharing
end PageCompiler
