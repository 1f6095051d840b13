import PageCompiler.Proofs.Checking.DirectiveOrder
import PageCompiler.Proofs.ClassText.IntegerLiterals
import PageCompiler.Proofs.Library.Failing

namespace PageCompiler.Settings

open Text
open Checking (bind_eq_ok)
open ClassText (Digits)
open PageCompiler.Tree (Declaration)

-- A number of kilobytes as it is written in a directive.
def kilobytes (ds : List Char) : String := String.ofList (ds ++ "kb".toList)

theorem digits?_eq_some_iff {ds : List Char} {n : Nat} :
    digits? ds = some n ↔ Digits ds ∧ Nat.ofDigitChars 10 ds 0 = n ∧ n < wordLimit := by
  have hvalue : ds.foldl (fun n c => n * 10 + (c.toNat - '0'.toNat)) 0 =
      Nat.ofDigitChars 10 ds 0 := by
    simp only [Nat.ofDigitChars_eq_foldl, Nat.mul_comm]
  unfold digits?
  rw [hvalue]
  by_cases hds : Digits ds
  · have hrow : (!ds.isEmpty && ds.all Char.isDigit) = true := by
      simpa using And.intro hds.ne_nil hds.isDigit
    rw [if_pos hrow, and_iff_right hds]
    simp only [Option.filter_eq_some_iff, Option.some.injEq, decide_eq_true_eq]
  · have hrow : ¬(!ds.isEmpty && ds.all Char.isDigit) = true := fun hrow =>
      hds ⟨by simp_all, by simp_all⟩
    rw [if_neg hrow]
    exact iff_of_false (by simp) fun h => hds h.1

theorem buffer?_kilobytes_iff {ds : List Char} (hds : ∀ c ∈ ds, c.isDigit = true) {size : Nat} :
    buffer? (kilobytes ds) = some size ↔
      (ds ≠ [] ∧ Nat.ofDigitChars 10 ds 0 < wordLimit) ∧
        size = Nat.ofDigitChars 10 ds 0 * 1024 := by
  have hnone : kilobytes ds ≠ "none" := by
    intro h
    have hlast := congrArg (·.toList.getLast?) h
    simp [kilobytes] at hlast
  have hfront : stripEnd? "kb".toList (kilobytes ds).toList = some ds := by
    simp [kilobytes, stripEnd?, stripStart?]
  rw [buffer?, if_neg hnone, hfront, Option.bind_some, Option.map_eq_some_iff]
  constructor
  · rintro ⟨n, hn, rfl⟩
    obtain ⟨hdigits, rfl, hfits⟩ := digits?_eq_some_iff.mp hn
    exact ⟨⟨hdigits.ne_nil, hfits⟩, rfl⟩
  · rintro ⟨⟨hne, hfits⟩, rfl⟩
    exact ⟨_, digits?_eq_some_iff.mpr ⟨⟨hne, hds⟩, rfl, hfits⟩, rfl⟩

variable {t : Tree} {o : Options} {r r' : Reconciled} {ds : List Declaration}

-- What the page directives come to, before they are held against each other as a whole.
def gathered (t : Tree) (o : Options) : Except Diagnostic Reconciled :=
  (t.entered fun kind => !isPageDirective kind).foldlM (applyNode t) { settings := ofOptions o }

theorem reconcile_eq_bind : reconcile t o = gathered t o >>= checkFlush t := rfl

theorem apply_bufferSize {s s' : Settings} {a : Attribute} (h : apply t s a = .ok s') :
    (a.name = "buffer" → buffer? a.value = some s'.bufferSize ∧ s'.bufferSize < wordLimit) ∧
      (a.name ≠ "buffer" → s'.bufferSize = s.bufferSize) := by
  unfold apply at h
  split at h
  case h_4 hname =>
    obtain ⟨bytes, hsize, h⟩ := bind_eq_ok.mp h
    cases h
    exact ⟨fun _ => size_eq_ok_iff.mp hsize, fun hne => absurd hname hne⟩
  case h_14 => cases h
  all_goals
    rename_i hname
    rw [hname]
    refine ⟨fun hbuffer => absurd hbuffer (by decide), fun _ => ?_⟩
  case h_1 =>
    split at h <;> cases h
    rfl
  case h_2 | h_7 | h_8 | h_10 =>
    cases h
    rfl
  all_goals
    obtain ⟨_, -, h⟩ := bind_eq_ok.mp h
    cases h
    rfl

-- Every value given for the buffer so far is the recorded one, and it tells the size.
def Buffered (ds : List Declaration) (r : Reconciled) : Prop :=
  ∀ d ∈ ds, d.attr.name = "buffer" →
    (r.seen.lookup "buffer").map Seen.value = some d.attr.value ∧
      buffer? d.attr.value = some r.settings.bufferSize ∧ r.settings.bufferSize < wordLimit

theorem Buffered.of_eq (h : Buffered ds r) {d : Declaration} (hname : d.attr.name ≠ "buffer")
    (hseen : r'.seen.lookup "buffer" = r.seen.lookup "buffer")
    (hsize : r'.settings.bufferSize = r.settings.bufferSize) : Buffered (ds ++ [d]) r' := by
  intro d' hd' hname'
  rw [hseen, hsize]
  rcases List.mem_append.mp hd' with hd' | hd'
  · exact h d' hd' hname'
  · rw [List.mem_singleton.mp hd'] at hname'
    exact absurd hname' hname

theorem Buffered.applyAttribute {d : Declaration} (h : Buffered ds r)
    (happly : applyAttribute t d.directive r d.attr = .ok r') : Buffered (ds ++ [d]) r' := by
  rcases applyAttribute_eq_ok happly with
    ⟨hname, imports, rfl⟩ | ⟨hname, happly⟩ | ⟨settings, hsettings, happly⟩
  · exact h.of_eq (by rw [hname]; decide) rfl rfl
  · obtain ⟨hseen, pageEncoding, hsettings⟩ := applyEncoding_settings happly
    exact h.of_eq (by rw [hname]; decide) (by rw [hseen]) (by rw [hsettings])
  · obtain ⟨hkept, hself, hsame, hother⟩ := record_eq_ok happly
    obtain ⟨hbuffer, helse⟩ := apply_bufferSize hsettings
    by_cases hname : d.attr.name = "buffer"
    · -- The value of another directive in front is the value of this one.
      intro d' hd' hname'
      have hvalue : d'.attr.value = d.attr.value := by
        rcases List.mem_append.mp hd' with hd' | hd'
        · obtain ⟨first, hfirst, hvalue⟩ := Option.map_eq_some_iff.mp (h d' hd' hname').1
          rw [← hvalue, hsame first (hname ▸ hfirst)]
        · rw [List.mem_singleton.mp hd']
      rw [hvalue, hkept]
      exact ⟨hname ▸ hself, hbuffer hname⟩
    · refine h.of_eq hname (hother _ (Ne.symm hname)) ?_
      rw [hkept, helse hname]

theorem buffered_gathered (h : gathered t o = .ok r) : Buffered t.directed r := by
  have hstart : Buffered [] { settings := ofOptions o } := fun _ hd => nomatch hd
  exact applyNodes_induct (fun _ hbuffered => hbuffered.applyAttribute) hstart h

-- The attribute asks for a buffer whose bytes 64 bits do not hold.
def Overflows (a : Attribute) : Prop :=
  a.name = "buffer" ∧ ∃ bytes, buffer? a.value = some bytes ∧ wordLimit ≤ bytes

-- This holds where the failure stops the compiler.
def Stopped (P : Prop) (e : Diagnostic) : Prop := e.fault.aborts = true → P

variable {a : Attribute} {P : Prop}

theorem stopped_fail {α : Type} {fault : Fault} (h : fault.aborts = false) (mark : Mark) :
    Failing (Stopped P) (fail t fault mark : Except Diagnostic α) := by
  refine .error fun haborts => ?_
  rw [Tree.fault_fault, h] at haborts
  cases haborts

theorem stopped_flag (a : Attribute) : Failing (Stopped P) (flag t a) := by
  unfold flag
  split
  · exact .ok _
  · exact .ok _
  · exact stopped_fail rfl _

theorem stopped_size (a : Attribute) :
    Failing (Stopped (∃ bytes, buffer? a.value = some bytes ∧ wordLimit ≤ bytes)) (size t a) := by
  unfold size
  split
  · rename_i bytes hbytes
    split
    · exact .ok _
    · rename_i hlarge
      exact .error fun _ => ⟨bytes, hbytes, Nat.le_of_not_lt hlarge⟩
  · exact stopped_fail rfl _

theorem stopped_apply (s : Settings) (a : Attribute) :
    Failing (Stopped (Overflows a)) (apply t s a) := by
  unfold apply
  split
  case h_4 hname =>
    refine .bind (fun e he haborts => ?_) fun _ _ => .ok _
    exact ⟨hname, stopped_size a e he haborts⟩
  case h_1 =>
    split
    · exact .ok _
    · exact stopped_fail rfl _
  case h_3 | h_5 | h_6 | h_9 | h_11 | h_12 | h_13 =>
    exact .bind (stopped_flag a) fun _ _ => .ok _
  case h_14 => exact stopped_fail rfl _
  all_goals exact .ok _

theorem stopped_record (r : Reconciled) (a : Attribute) : Failing (Stopped P) (record t r a) := by
  unfold record
  split
  · split
    · exact .ok _
    · exact stopped_fail rfl _
  · exact .ok _

theorem stopped_checkEncoding (a : Attribute) (signs : EncodingInfo) :
    Failing (Stopped P) (checkEncoding t a signs) := by
  unfold checkEncoding
  refine .forM fun sign _ => ?_
  dsimp only
  split
  · split
    · exact .ok _
    · exact stopped_fail rfl _
  · exact .ok _

theorem stopped_applyEncoding (id : NodeId) (r : Reconciled) (a : Attribute) :
    Failing (Stopped P) (applyEncoding t id r a) := by
  unfold applyEncoding
  dsimp only
  split
  · split
    · exact .ok _
    · exact stopped_fail rfl _
  · split
    · exact .ok _
    · refine .bind (stopped_checkEncoding a _) fun _ _ => ?_
      split <;> exact .ok _

theorem stopped_applyAttribute (id : NodeId) (r : Reconciled) (a : Attribute) :
    Failing (Stopped (Overflows a)) (applyAttribute t id r a) := by
  unfold applyAttribute
  dsimp only
  split
  · exact .bind (stopped_fail rfl _) fun _ h => nomatch h
  · split
    · exact .ok _
    · exact stopped_applyEncoding id r a
    · exact .bind (stopped_apply _ a) fun _ _ => stopped_record _ a

theorem stopped_applyNode (r : Reconciled) (id : NodeId) :
    Failing (Stopped (∃ d ∈ t.directedOf id, Overflows d.attr)) (applyNode t r id) := by
  unfold applyNode
  split
  · refine .bind ?_ fun _ _ => .ok _
    unfold checkRoot
    split
    · split
      · exact .ok _
      · exact stopped_fail rfl _
    · exact .ok _
  · rename_i hkind
    refine (Failing.foldlM (I := fun _ => True) trivial fun r _ a ha => ⟨?_, fun _ _ => trivial⟩).1
    intro e he haborts
    exact ⟨⟨id, a⟩, Tree.mem_directedOf.mpr ⟨rfl, hkind, ha⟩,
      stopped_applyAttribute id r a e he haborts⟩
  · exact .ok _

-- Nothing but a directive for such a buffer stops the compiler.
theorem stopped_reconcile (t : Tree) (o : Options) :
    Failing (Stopped (∃ d ∈ t.directed, Overflows d.attr)) (reconcile t o) := by
  refine .bind (Failing.foldlM (I := fun _ => True) trivial fun r _ id hid =>
    ⟨?_, fun _ _ => trivial⟩).1 fun r _ => ?_
  · intro e he haborts
    obtain ⟨d, hd, hoverflows⟩ := stopped_applyNode r id e he haborts
    exact ⟨d, List.mem_flatMap.mpr ⟨id, hid, hd⟩, hoverflows⟩
  · unfold checkFlush
    split
    · exact stopped_fail rfl _
    · exact .ok _

-- A directive that gives the buffer in kilobytes is refused without digits or when their number
-- does not fit into 64 bits, and stops the compiler when the number does and the bytes do not.
theorem applyAttribute_kilobytes {id : NodeId} {digits : List Char} (hname : a.name = "buffer")
    (hliteral : a.scripting = false) (hdigits : ∀ c ∈ digits, c.isDigit = true)
    (hvalue : a.value = kilobytes digits) (r : Reconciled) :
    let n := Nat.ofDigitChars 10 digits 0
    applyAttribute t id r a =
      if digits = [] ∨ wordLimit ≤ n then
        invalid t "buffer" "must be 'none' or a size like '8kb'" a.mark
      else if wordLimit ≤ n * 1024 then fail t (.overflown a.value) a.mark
      else record t { r with settings := { r.settings with bufferSize := n * 1024 } } a := by
  intro n
  have happly : applyAttribute t id r a = size t a >>= fun bytes =>
      record t { r with settings := { r.settings with bufferSize := bytes } } a := by
    simp only [applyAttribute, apply, hname, hliteral, Bool.false_eq_true, if_false]
    exact bind_assoc ..
  have hbuffer : ∀ bytes, buffer? a.value = some bytes ↔
      (digits ≠ [] ∧ n < wordLimit) ∧ bytes = n * 1024 := fun bytes =>
    hvalue ▸ buffer?_kilobytes_iff hdigits
  rw [happly, size]
  split
  · rename_i bytes hbytes
    obtain ⟨⟨hne, hfits⟩, rfl⟩ := (hbuffer bytes).mp hbytes
    have haccepted : ¬(digits = [] ∨ wordLimit ≤ n) := by simpa [hne] using hfits
    rw [if_neg haccepted]
    split
    · rename_i hlt
      rw [if_neg (Nat.not_le_of_lt hlt)]
      rfl
    · rename_i hge
      rw [if_pos (Nat.le_of_not_lt hge)]
      rfl
  · rename_i hnone
    have hrefused : digits = [] ∨ wordLimit ≤ n := by
      by_contra hnot
      rw [not_or, Nat.not_le] at hnot
      rw [(hbuffer _).mpr ⟨hnot, rfl⟩] at hnone
      cases hnone
    rw [if_pos hrefused]
    rfl

-- Whatever else the directives of a page say, when one of them gives its buffer in kilobytes: the
-- page is accepted only if there are digits and the number of bytes fits into 64 bits, and the size
-- is then that number. When all directives have been taken up, the page is refused for not being
-- flushed if and only if the number is zero and flushing is off. A directive whose bytes do not fit
-- stops the compiler when it is taken up, although its number of kilobytes fits, and nothing else
-- stops it.
theorem bufferSize_reconcile {d : Declaration} {digits : List Char} {n : Nat}
    (hd : d ∈ t.directed) (hname : d.attr.name = "buffer")
    (hdigits : ∀ c ∈ digits, c.isDigit = true) (hn : Nat.ofDigitChars 10 digits 0 = n)
    (hvalue : d.attr.value = kilobytes digits) :
    (∀ s, reconcile t o = .ok s → (digits ≠ [] ∧ n * 1024 < wordLimit) ∧
      s.bufferSize = n * 1024 ∧ (s.bufferSize = 0 ↔ n = 0)) ∧
    (∀ e, gathered t o = .error e → reconcile t o = .error e) ∧
    (∀ r, gathered t o = .ok r → (digits ≠ [] ∧ n * 1024 < wordLimit) ∧
      if n = 0 ∧ r.settings.autoFlush = false then
        ∃ mark, reconcile t o =
          invalid t "autoFlush" "cannot be false when buffer is 'none'" mark
      else reconcile t o = .ok r.settings) ∧
    (d.attr.scripting = false → ∀ r, applyAttribute t d.directive r d.attr =
      if digits = [] ∨ wordLimit ≤ n then
        invalid t "buffer" "must be 'none' or a size like '8kb'" d.attr.mark
      else if wordLimit ≤ n * 1024 then fail t (.overflown d.attr.value) d.attr.mark
      else record t { r with settings := { r.settings with bufferSize := n * 1024 } } d.attr) ∧
    ∀ e, reconcile t o = .error e → e.fault.aborts = true → ∃ d' ∈ t.directed, Overflows d'.attr := by
  subst hn
  have happly := fun hliteral =>
    @applyAttribute_kilobytes t _ d.directive _ hname hliteral hdigits hvalue
  have hgathered : ∀ r, gathered t o = .ok r →
      (digits ≠ [] ∧ Nat.ofDigitChars 10 digits 0 * 1024 < wordLimit) ∧
        r.settings.bufferSize = Nat.ofDigitChars 10 digits 0 * 1024 := by
    intro r hr
    obtain ⟨-, hbuffer, hfits⟩ := buffered_gathered hr d hd hname
    obtain ⟨⟨hne, -⟩, hsize⟩ := (buffer?_kilobytes_iff hdigits).mp (hvalue ▸ hbuffer)
    exact ⟨⟨hne, hsize ▸ hfits⟩, hsize⟩
  generalize Nat.ofDigitChars 10 digits 0 = n at hgathered happly ⊢
  have hzero : n * 1024 = 0 ↔ n = 0 := by omega
  refine ⟨fun s hs => ?_, fun e he => ?_, fun r hr => ?_, happly,
    fun e he => stopped_reconcile t o e he⟩
  · obtain ⟨r, hr, hflush⟩ := bind_eq_ok.mp hs
    obtain ⟨-, rfl⟩ := checkFlush_eq_ok_iff.mp hflush
    obtain ⟨haccepted, hsize⟩ := hgathered r hr
    exact ⟨haccepted, hsize, by rw [hsize, hzero]⟩
  · rw [reconcile_eq_bind, he]
    rfl
  · obtain ⟨haccepted, hsize⟩ := hgathered r hr
    refine ⟨haccepted, ?_⟩
    have hreconcile : reconcile t o = checkFlush t r := by
      rw [reconcile_eq_bind, hr]
      rfl
    rw [hreconcile]
    split
    · rename_i hrefused
      rw [checkFlush, hsize, hzero.mpr hrefused.1, hrefused.2]
      exact ⟨_, rfl⟩
    · rename_i hflushed
      refine checkFlush_eq_ok_iff.mpr ⟨fun hnone => ?_, rfl⟩
      rw [hsize, hzero] at hnone
      simpa [hnone] using hflushed

-- A page with the first number of kilobytes whose bytes 64 bits do not hold.
def overflownUnit : Loader :=
  .ofUnits [("/main.page", Utf8.ofString "<%@ page buffer=\"18014398509481984kb\" %>")]

-- The page is neither accepted nor refused: its only directive stops the compiler.
theorem bufferSize_reconcile_overflown :
    ∃ page resolver e,
      Page.read {} overflownUnit (.ofLibraries []) "/main.page" = (.ok page, resolver) ∧
      reconcile page.tree {} = .error e ∧ e.fault = .overflown "18014398509481984kb" ∧
      (∃ d ∈ page.tree.directed, Overflows d.attr) ∧
      ∃ d ∈ page.tree.directed, d.attr.value = kilobytes "18014398509481984".toList ∧
        ∀ r, applyAttribute page.tree d.directive r d.attr =
          fail page.tree (.overflown d.attr.value) d.attr.mark := by
  have hrun : Page.passes {} overflownUnit (.ofLibraries []) "/main.page" (fun page =>
      page.tree.directed.map (fun d => (d.attr.name, d.attr.value, d.attr.scripting)) ==
          [("buffer", kilobytes "18014398509481984".toList, false)] &&
        match reconcile page.tree {} with
        | .ok _ => false
        | .error e => decide (e.fault = .overflown "18014398509481984kb")) := by
    rw [overflownUnit, Utf8.ofString_ofList]
    decide +kernel
  obtain ⟨page, resolver, h, htest⟩ := Page.of_passes hrun
  rw [Bool.and_eq_true, beq_iff_eq] at htest
  obtain ⟨hdirected, hstops⟩ := htest
  have hmem := List.mem_singleton_self ("buffer", kilobytes "18014398509481984".toList, false)
  rw [← hdirected] at hmem
  obtain ⟨d, hd, hcontent⟩ := List.mem_map.mp hmem
  obtain ⟨hname, hcontent⟩ := Prod.mk.inj hcontent
  obtain ⟨hvalue, hliteral⟩ := Prod.mk.inj hcontent
  cases hreconcile : reconcile page.tree {} with
  | ok s =>
    rw [hreconcile] at hstops
    cases hstops
  | error e =>
    rw [hreconcile] at hstops
    have hfault := of_decide_eq_true hstops
    have hn : Nat.ofDigitChars 10 "18014398509481984".toList 0 = 18014398509481984 := by
      decide +kernel
    have hdigits : ∀ c ∈ "18014398509481984".toList, c.isDigit = true :=
      List.all_eq_true.mp (by decide)
    obtain ⟨-, -, -, happly, hstopped⟩ := bufferSize_reconcile hd hname hdigits hn hvalue
    refine ⟨page, resolver, e, h, hreconcile, hfault, hstopped e hreconcile (by rw [hfault]; rfl),
      d, hd, hvalue, fun r => ?_⟩
    rw [happly hliteral r, if_neg (by decide), if_pos (by decide)]

end PageCompiler.Settings
