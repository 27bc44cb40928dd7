import Tysel.Algorithm.Fetch.Outbound
import Mathlib.Algebra.GroupWithZero.Nat

/-! The resolution of a URI reference that RFC 3986 describes, over the characters of its text, and
the references that a redirect resolves so. -/

namespace Tysel.Fetch

open Text List Option

structure Reference where
  scheme : Option (List Char)
  authority : Option (List Char)
  path : List Char
  query : Option (List Char)
  fragment : Option (List Char)

/-- The text before the first `c`, and the text behind it. -/
def cutAt (c : Char) (cs : List Char) : List Char × Option (List Char) :=
  match splitOnce c cs with
  | some (before, after) => (before, some after)
  | none => (cs, none)

/-- The path up to its last slash. -/
def directory (path : List Char) : List Char := ((rsplitOnce '/' path).map (·.1)).getD []

namespace Reference

def takeScheme (cs : List Char) : Option (List Char) × List Char :=
  match splitOnce ':' cs with
  | some (scheme, rest) => if scheme = [] ∨ '/' ∈ scheme then (none, cs) else (some scheme, rest)
  | none => (none, cs)

def takeAuthority : List Char → Option (List Char) × List Char
  | '/' :: '/' :: cs => (some (cs.takeWhile (· ≠ '/')), cs.dropWhile (· ≠ '/'))
  | cs => (none, cs)

def parse (cs : List Char) : Reference :=
  let (rest, fragment) := cutAt '#' cs
  let (rest, query) := cutAt '?' rest
  let (scheme, rest) := takeScheme rest
  let (authority, path) := takeAuthority rest
  ⟨scheme, authority, path, query, fragment⟩

def site (r : Reference) : List Char :=
  r.scheme.elim [] (· ++ [':']) ++ r.authority.elim [] ('/' :: '/' :: ·)

def rest (r : Reference) : List Char := r.query.elim [] ('?' :: ·) ++ r.fragment.elim [] ('#' :: ·)

def text (r : Reference) : List Char := r.site ++ (r.path ++ r.rest)

/-- The segments that are left of a path behind its first slash. -/
def removeDots (out : List (List Char)) : List (List Char) → List (List Char)
  | [] => out.reverse
  | segment :: rest =>
    if segment = ['.'] then removeDots (if rest = [] then [] :: out else out) rest
    else if segment = ['.', '.'] then
      removeDots (if rest = [] then [] :: out.tail else out.tail) rest
    else removeDots (segment :: out) rest

/-- A path behind an authority is empty or begins with a slash. -/
def removeDotSegments : List Char → List Char
  | '/' :: rest => '/' :: ['/'].intercalate (removeDots [] (rest.splitOn '/'))
  | path => path

/-- The path of the target with its dot segments. -/
def merged (base r : Reference) : List Char :=
  if r.scheme.isSome ∨ r.authority.isSome ∨ r.path.head? = some '/' then r.path
  else directory base.path ++ '/' :: r.path

def resolve (base r : Reference) : Reference :=
  if r.scheme.isSome then { r with path := removeDotSegments (base.merged r) }
  else if r.authority.isSome then
    { r with scheme := base.scheme, path := removeDotSegments (base.merged r) }
  else if r.path = [] then
    { base with query := r.query <|> base.query, fragment := r.fragment }
  else { base with
    path := removeDotSegments (base.merged r)
    query := r.query
    fragment := r.fragment }

end Reference

def Uri.reference (uri : Uri) : Reference :=
  ⟨uri.scheme.map String.toList, uri.authority.map String.toList, uri.path.toList,
    uri.pathAndQuery.bind fun text => (cutAt '?' text.toList).2, none⟩

theorem splitOnce_eq_some {c : Char} {cs before after : List Char}
    (h : splitOnce c cs = some (before, after)) : cs = before ++ c :: after ∧ c ∉ before := by
  induction cs generalizing before with
  | nil => cases h
  | cons x _ ih =>
    rw [splitOnce] at h
    by_cases hx : x = c
    · rw [if_pos hx] at h
      obtain ⟨rfl, rfl⟩ := Prod.mk.inj (some.inj h)
      simp [hx]
    · rw [if_neg hx] at h
      obtain ⟨⟨_, _⟩, hparts, hpair⟩ := map_eq_some_iff.mp h
      obtain ⟨rfl, rfl⟩ := Prod.mk.inj hpair
      obtain ⟨rfl, hbefore⟩ := ih hparts
      simp [hbefore, Ne.symm hx]

theorem splitOnce_eq_none {c : Char} {cs : List Char} (h : splitOnce c cs = none) : c ∉ cs := by
  induction cs with
  | nil => simp
  | cons x _ ih =>
    rw [splitOnce] at h
    by_cases hx : x = c
    · simp [hx] at h
    · rw [if_neg hx, map_eq_none_iff] at h
      simp [ih h, Ne.symm hx]

theorem cutAt_text (c : Char) (cs : List Char) :
    (cutAt c cs).1 ++ (cutAt c cs).2.elim [] (c :: ·) = cs := by
  unfold cutAt
  split
  next hsplit => exact (splitOnce_eq_some hsplit).1.symm
  next => exact append_nil cs

theorem cutAt_append {c : Char} {lead : List Char} (h : c ∉ lead) (cs : List Char) :
    (cutAt c (lead ++ cs)).1 = lead ++ (cutAt c cs).1 := by
  have hsplit : splitOnce c (lead ++ cs) =
      (splitOnce c cs).map fun parts => (lead ++ parts.1, parts.2) := by
    induction lead with
    | nil => simp
    | cons _ _ ih =>
      rw [mem_cons, not_or] at h
      rw [cons_append, splitOnce, if_neg (Ne.symm h.1), ih h.2, Option.map_map]
      rfl
  unfold cutAt
  rw [hsplit]
  cases splitOnce c cs <;> rfl

namespace Reference

theorem takeScheme_text (cs : List Char) :
    (takeScheme cs).1.elim [] (· ++ [':']) ++ (takeScheme cs).2 = cs := by
  unfold takeScheme
  split
  next hsplit =>
    split
    · rfl
    · rw [(splitOnce_eq_some hsplit).1]
      exact append_assoc ..
  next => rfl

theorem takeAuthority_text (cs : List Char) :
    (takeAuthority cs).1.elim [] ('/' :: '/' :: ·) ++ (takeAuthority cs).2 = cs := by
  unfold takeAuthority
  split
  · exact congrArg ('/' :: '/' :: ·) takeWhile_append_dropWhile
  · rfl

/-- The components of a text are put together to the text. -/
theorem text_parse (cs : List Char) : (parse cs).text = cs := by
  have hfragment := cutAt_text '#' cs
  have hquery := cutAt_text '?' (cutAt '#' cs).1
  have hscheme := takeScheme_text (cutAt '?' (cutAt '#' cs).1).1
  have hauthority := takeAuthority_text (takeScheme (cutAt '?' (cutAt '#' cs).1).1).2
  rw [← hauthority, ← append_assoc] at hscheme
  rw [← hscheme, append_assoc, append_assoc] at hquery
  rw [← hquery, append_assoc, append_assoc, append_assoc, ← append_assoc] at hfragment
  exact hfragment

theorem scheme_isSome {lead : String} (hlead : lead ∈ ["http://", "https://"]) {cs : List Char}
    (h : startsWith cs lead = true) : (parse cs).scheme.isSome = true := by
  obtain ⟨-, rfl⟩ := isPrefixOf_iff_prefix.mp h
  have hmarks : '#' ∉ lead.toList ∧ '?' ∉ lead.toList ∧
      ∀ cs, (takeScheme (lead.toList ++ cs)).1.isSome = true := by
    rcases mem_pair.mp hlead with rfl | rfl
    · exact ⟨by decide, by decide, fun _ => rfl⟩
    · exact ⟨by decide, by decide, fun _ => rfl⟩
  change (takeScheme (cutAt '?' (cutAt '#' _).1).1).1.isSome = true
  rw [cutAt_append hmarks.1, cutAt_append hmarks.2.1]
  exact hmarks.2.2 _

/-- What the segments take up in a path, each with a slash. -/
def weight (segments : List (List Char)) : ℕ := (segments.map (·.length + 1)).sum

@[simp] theorem weight_cons (segment : List Char) (segments : List (List Char)) :
    weight (segment :: segments) = segment.length + 1 + weight segments := by
  simp [weight]

theorem length_intercalate (segments : List (List Char)) :
    (['/'].intercalate segments).length = weight segments - 1 := by
  induction segments with
  | nil => rfl
  | cons segment rest ih =>
    cases rest with
    | nil => simp [weight]
    | cons next rest =>
      rw [intercalate_cons_cons, length_append, length_append, ih]
      simp only [weight_cons, length_singleton]
      omega

theorem removeDots_weight (out segments : List (List Char)) :
    weight (removeDots out segments) ≤ weight out + weight segments := by
  induction segments generalizing out with
  | nil => simp [removeDots, weight]
  | cons segment rest ih =>
    have hpush (out : List (List Char)) :
        weight (if rest = [] then [] :: out else out) ≤ weight out + 1 := by
      split
      · simp [Nat.add_comm]
      · exact Nat.le_succ _
    have htail : weight out.tail ≤ weight out := by cases out <;> simp [weight]
    rw [removeDots, weight_cons]
    split
    · have hrest := ih (if rest = [] then [] :: out else out)
      have hout := hpush out
      omega
    · split
      · have hrest := ih (if rest = [] then [] :: out.tail else out.tail)
        have hout := hpush out.tail
        omega
      · have hrest := ih (segment :: out)
        rw [weight_cons] at hrest
        omega

theorem length_removeDotSegments (path : List Char) :
    (removeDotSegments path).length ≤ path.length := by
  unfold removeDotSegments
  split
  next rest =>
    have hweight := removeDots_weight [] (rest.splitOn '/')
    have hrest := congrArg length (@intercalate_splitOn _ rest _ _ '/')
    rw [length_intercalate] at hrest
    rw [length_cons, length_cons, length_intercalate]
    simp only [show weight [] = 0 from rfl] at hweight
    omega
  next => exact Nat.le_refl _

theorem text_path_inj (r : Reference) (path : List Char) :
    r.text = { r with path := path }.text ↔ path = r.path := by
  change r.site ++ (r.path ++ r.rest) = r.site ++ (path ++ r.rest) ↔ _
  rw [append_cancel_left_eq, append_cancel_right_eq, eq_comm]

theorem length_resolve_lt {base r : Reference} (hbase : base.authority.isSome)
    (h : r.scheme.isSome ∨ r.authority.isSome) :
    (base.resolve r).text.length < base.site.length + r.text.length := by
  have hmerged : base.merged r = r.path := if_pos (h.imp_right .inl)
  have hpath := length_removeDotSegments r.path
  obtain ⟨authority, hauthority⟩ := isSome_iff_exists.mp hbase
  rw [resolve, hmerged]
  by_cases hscheme : r.scheme.isSome
  · simp [hscheme, text, site, rest, hauthority]
    omega
  · have hnone : r.scheme = none := by simpa using hscheme
    simp [h.resolve_left hscheme, text, site, rest, hauthority, hnone]
    omega

end Reference

theorem directory_cases (path : List Char) :
    (∃ file, path = directory path ++ '/' :: file ∧ '/' ∉ file) ∨
      '/' ∉ path ∧ directory path = [] := by
  unfold directory rsplitOnce
  cases hsplit : splitOnce '/' path.reverse with
  | none => exact .inr ⟨by simpa using splitOnce_eq_none hsplit, rfl⟩
  | some parts =>
    obtain ⟨hpath, hfile⟩ := splitOnce_eq_some hsplit
    refine .inl ⟨parts.1.reverse, ?_, by simpa using hfile⟩
    simpa using congrArg reverse hpath

/-- A path that is kept by a reference without a path of its own. -/
theorem directory_eq_iff (path : List Char) (query base : Option (List Char)) :
    directory path ++ '/' :: query.elim [] ('?' :: ·) =
        path ++ (query <|> base).elim [] ('?' :: ·) ↔
      path.getLast? = some '/' ∧ (query.isSome ∨ base = none) := by
  rcases directory_cases path with ⟨file, hpath, hfile⟩ | ⟨hpath, hdirectory⟩
  · generalize directory path = lead at hpath
    subst hpath
    have hlast : (lead ++ '/' :: file).getLast? = some '/' ↔ file = [] := by
      rcases eq_nil_or_concat file with rfl | ⟨file, c, rfl⟩
      · simp
      · have hend : lead ++ '/' :: file.concat c = (lead ++ '/' :: file) ++ [c] := by simp
        have hne : c ≠ '/' := fun h => hfile (by simp [h])
        rw [hend, getLast?_concat]
        simpa using hne
    rw [hlast]
    cases query <;> cases base <;> simp
  · have hlast : path.getLast? ≠ some '/' := fun h => hpath (mem_of_getLast? h)
    rw [hdirectory]
    refine iff_of_false (fun h => ?_) fun h => hlast h.1
    cases path with
    | nil => cases query <;> cases base <;> simp at h
    | cons c path => simp_all

/-- What a redirect writes behind the authority. -/
def behind (path cs : List Char) : List Char :=
  if cs.head? = some '/' then cs else directory path ++ '/' :: cs

theorem resolveRedirect_relative {libraries : Libraries} {current location : String} {base : Uri}
    {scheme authority : String} (hbase : libraries.parseUri current = .ok base)
    (hscheme : base.scheme = some scheme) (hauthority : base.authority = some authority)
    (hhttp : ¬ (startsWith (trim location.toList) "http://" ||
      startsWith (trim location.toList) "https://") = true) :
    resolveRedirect libraries current location = .ok (String.ofList (base.reference.site ++
        behind base.path.toList (trim location.toList))) := by
  unfold resolveRedirect
  simp only [if_neg hhttp, hbase, hscheme, hauthority, ok_bind, required, behind]
  generalize trim location.toList = cs
  by_cases hslash : cs.head? = some '/'
  · obtain ⟨cs, rfl⟩ := head?_eq_some_iff.mp hslash
    refine congrArg Except.ok (String.toList_inj.mp ?_)
    simp [Uri.reference, Reference.site, hscheme, hauthority]
  · have hstrip : stripPrefix "/" cs = none := by
      cases cs with
      | nil => rfl
      | cons c =>
        have hne : '/' ≠ c := fun h => hslash (by rw [h]; rfl)
        exact if_neg (by simpa using hne)
    rw [hstrip, if_neg hslash, directory]
    refine congrArg Except.ok (String.toList_inj.mp ?_)
    cases rsplitOnce '/' base.path.toList <;>
      simp [Uri.reference, Reference.site, hscheme, hauthority]

theorem ok_ofList_inj {a b : List Char} :
    (.ok (String.ofList a) : Except String String) = .ok (String.ofList b) ↔ a = b := by
  rw [Except.ok.injEq, String.ofList_inj]

/-- A redirect leads to the target of the reference exactly if it is to an http or https URL in
lowercase or to a path, with no dot segments to remove, or keeps a path that ends in a slash, and
the query with it. -/
theorem redirect_resolves_reference {libraries : Libraries} {current location : String} {base : Uri}
    {scheme authority : String} (hbase : libraries.parseUri current = .ok base)
    (hscheme : base.scheme = some scheme) (hauthority : base.authority = some authority) :
    let cs := trim location.toList
    let r := Reference.parse cs
    resolveRedirect libraries current location =
        .ok (String.ofList (base.reference.resolve r).text) ↔
      (startsWith cs "http://" = true ∨ startsWith cs "https://" = true ∨
        r.scheme = none ∧ r.authority = none ∧ r.path ≠ []) ∧
          Reference.removeDotSegments (base.reference.merged r) = base.reference.merged r ∨
      r.scheme = none ∧ r.authority = none ∧ r.path = [] ∧
        base.path.toList.getLast? = some '/' ∧ (r.query.isSome ∨ base.reference.query = none) := by
  intro cs r
  have htext : r.text = cs := Reference.text_parse cs
  by_cases hhttp : (startsWith cs "http://" || startsWith cs "https://") = true
  · have hsome : r.scheme.isSome = true := by
      rcases Bool.or_eq_true _ _ ▸ hhttp with h | h
      · exact Reference.scheme_isSome (by simp) h
      · exact Reference.scheme_isSome (by simp) h
    have hmerged : base.reference.merged r = r.path := if_pos (.inl hsome)
    have htarget : resolveRedirect libraries current location = .ok (String.ofList cs) := by
      rw [resolveRedirect, if_pos hhttp]
      rfl
    have hnone : r.scheme ≠ none := isSome_iff_ne_none.mp hsome
    rw [htarget, Reference.resolve, if_pos hsome, hmerged, ok_ofList_inj, ← htext,
      Reference.text_path_inj]
    simp only [hnone, false_and, or_false]
    rw [htext, ← Bool.or_eq_true]
    exact (and_iff_right hhttp).symm
  · rw [resolveRedirect_relative hbase hscheme hauthority hhttp, ok_ofList_inj]
    rw [Bool.or_eq_true, not_or] at hhttp
    change base.reference.site ++ behind base.reference.path cs = _ ↔ _
    by_cases hnamed : r.scheme.isSome ∨ r.authority.isSome
    · refine iff_of_false (fun heq => ?_) ?_
      · have hbase : base.reference.authority.isSome := by simp [Uri.reference, hauthority]
        have hlength := Reference.length_resolve_lt hbase hnamed
        rw [← heq, htext, length_append, behind] at hlength
        split at hlength
        · omega
        · rw [length_append, length_cons] at hlength
          omega
      · rintro (⟨hform, -⟩ | ⟨hrs, hra, -⟩)
        · obtain ⟨hrs, hra, -⟩ := (hform.resolve_left hhttp.1).resolve_left hhttp.2
          simp [hrs, hra] at hnamed
        · simp [hrs, hra] at hnamed
    · simp only [not_or, Bool.not_eq_true, isSome_eq_false_iff, isNone_iff_eq_none] at hnamed
      obtain ⟨hrs, hra⟩ := hnamed
      have hcs : cs = r.path ++ r.rest := by
        rw [← htext]
        simp [Reference.text, Reference.site, hrs, hra]
      by_cases hpath : r.path = []
      · have hbehind : behind base.reference.path cs =
            directory base.reference.path ++ '/' :: r.rest := by
          rw [hcs, hpath, behind, Reference.rest]
          cases r.query <;> cases r.fragment <;> simp
        have hresolve : base.reference.resolve r = { base.reference with
            query := r.query <|> base.reference.query, fragment := r.fragment } := by
          simp [Reference.resolve, hrs, hra, hpath]
        rw [hresolve, hbehind]
        change _ = base.reference.site ++ (base.reference.path ++ (_ ++ _)) ↔ _
        rw [append_cancel_left_eq, Reference.rest, ← cons_append, ← append_assoc, ← append_assoc,
          append_cancel_right_eq, directory_eq_iff]
        simp [hhttp, hrs, hra, hpath, Uri.reference]
      · have hresolve : base.reference.resolve r = { r with
            scheme := base.reference.scheme
            authority := base.reference.authority
            path := Reference.removeDotSegments (base.reference.merged r) } := by
          simp [Reference.resolve, hrs, hra, hpath]
        have hbehind : behind base.reference.path cs = base.reference.merged r ++ r.rest := by
          obtain ⟨c, rest, hcons⟩ := exists_cons_of_ne_nil hpath
          rw [behind, Reference.merged, hcs, hcons]
          by_cases hslash : c = '/' <;> simp [hslash, hrs, hra]
        rw [hresolve, hbehind]
        change _ = base.reference.site ++ (_ ++ r.rest) ↔ _
        rw [append_cancel_left_eq, append_cancel_right_eq, eq_comm]
        simp [hhttp, hrs, hra, hpath]

def pageUri : Uri := ⟨some "http", some "a.example", some "a.example", none, "/b/c", some "/b/c"⟩

def pageLibraries : Libraries :=
  ⟨fun text => if text = "http://a.example/b/c" then .ok pageUri else .error "invalid uri",
    fun _ => .ok []⟩

theorem redirect_resolves_sibling :
    resolveRedirect pageLibraries "http://a.example/b/c" "d?e" = .ok "http://a.example/b/d?e" :=
  (redirect_resolves_reference (show pageLibraries.parseUri _ = .ok pageUri from rfl) rfl rfl).mpr
    (.inl ⟨.inr (.inr (by decide +kernel)), by decide +kernel⟩)

/-- A reference that names another host stays on the host of the page. -/
theorem redirect_keeps_host :
    resolveRedirect pageLibraries "http://a.example/b/c" "//other.example/x" =
        .ok "http://a.example//other.example/x" ∧
      (pageUri.reference.resolve (.parse "//other.example/x".toList)).text =
        "http://other.example/x".toList := by
  decide +kernel

end Tysel.Fetch
