import Mathlib.Data.List.TakeDrop
import Mathlib.Data.List.TakeWhile
import StrategyForm.Proofs.Web.Endpoint

/-!
# A slash behind the base address

Main statement (`create_slash`): of a base address of the web that ends in a plain character and the one with
a slash behind it, both are accepted or none, and the endpoints of every id are the same.

All that reads an address takes characters from its front, so a slash behind the text is behind what is left
to read (`scheme?_slash`, `readAuthority_slash`), until the path is made of it. There it is one more empty
segment, unless the last segment stands for a place (`stem_segmentsOf_slash`).
-/

namespace StrategyForm.Web
namespace Url

/-- A text whose last character counts and is no slash in any address. -/
def EndsPlain (s : String) : Prop :=
  ∃ front c, s.toList = front ++ [c] ∧ Text.isBlank c = false ∧ 0x20 < c.toNat ∧ isSlash true c = false

/-! ### The ends of a text -/

section
variable {p : Char → Bool} {c : Char}

theorem dropWhile_concat (h : p c = false) (cs : List Char) :
    (cs ++ [c]).dropWhile p = cs.dropWhile p ++ [c] := by
  induction cs with
  | nil => simp [h]
  | cons a cs ih =>
    rw [List.cons_append, List.dropWhile_cons, List.dropWhile_cons]
    split
    · exact ih
    · rfl

theorem takeWhile_concat (h : p c = false) (cs : List Char) :
    (cs ++ [c]).takeWhile p = cs.takeWhile p := by
  induction cs with
  | nil => simp [h]
  | cons a cs ih =>
    rw [List.cons_append, List.takeWhile_cons, List.takeWhile_cons, ih]

theorem span_concat (h : p c = false) (cs : List Char) :
    (cs ++ [c]).span p = ((cs.span p).1, (cs.span p).2 ++ [c]) := by
  rw [List.span_eq_takeWhile_dropWhile, List.span_eq_takeWhile_dropWhile, dropWhile_concat h,
    takeWhile_concat h]

theorem span_snd_suffix (cs : List Char) : (cs.span p).2 <:+ cs := by
  rw [List.span_eq_takeWhile_dropWhile]
  exact List.dropWhile_suffix p

/-- A text that is cut off at both ends keeps its end when that counts. -/
theorem strip_concat (h : p c = false) (cs : List Char) :
    (((cs ++ [c]).dropWhile p).reverse.dropWhile p).reverse = cs.dropWhile p ++ [c] := by
  rw [dropWhile_concat h, List.reverse_append, List.reverse_singleton, List.singleton_append,
    List.dropWhile_cons, h, if_neg Bool.false_ne_true, List.reverse_cons, List.reverse_reverse]

end

namespace EndsPlain
variable {s : String}

theorem trim_slash (h : EndsPlain s) : Text.trim (s ++ "/") = Text.trim s ++ "/" := by
  obtain ⟨front, c, spelled, solid, -, -⟩ := h
  have slash : Text.isBlank '/' = false := by decide
  have trimmed : Text.trimChars (front ++ [c]) = front.dropWhile Text.isBlank ++ [c] := strip_concat solid front
  have longer : Text.trimChars (front ++ [c] ++ ['/']) = (front ++ [c]).dropWhile Text.isBlank ++ ['/'] :=
    strip_concat slash _
  have whole : (s ++ "/").toList = front ++ [c] ++ ['/'] := by rw [String.toList_append, spelled]; rfl
  apply String.toList_inj.1
  rw [Text.trim, Text.trim, whole, spelled, trimmed, longer, dropWhile_concat solid]
  simp

theorem trim (h : EndsPlain s) : EndsPlain (Text.trim s) := by
  obtain ⟨front, c, spelled, solid, counts⟩ := h
  have trimmed : Text.trimChars (front ++ [c]) = front.dropWhile Text.isBlank ++ [c] := strip_concat solid front
  refine ⟨front.dropWhile Text.isBlank, c, ?_, solid, counts⟩
  rw [Text.trim, spelled, trimmed, String.toList_ofList]

/-- The end of the text is the end of what counts of it, with and without a slash behind. -/
theorem significant (h : EndsPlain s) : ∃ front c, significant s = front ++ [c] ∧
    significant (s ++ "/") = front ++ [c] ++ ['/'] ∧ isSlash true c = false := by
  obtain ⟨front, c, spelled, -, above, plain⟩ := h
  let isOuter (c : Char) : Bool := c.toNat ≤ 0x20
  have inner : isOuter c = false := by simpa [isOuter] using above
  have slash : isOuter '/' = false := by decide
  have kept : isPassedOver c = false := by
    simp only [isPassedOver, Bool.or_eq_false_iff, decide_eq_false_iff_not]
    refine ⟨⟨?_, ?_⟩, ?_⟩ <;> rintro rfl <;> exact absurd above (by decide)
  have cut := strip_concat inner front
  have cut' := strip_concat slash (front ++ [c])
  have whole : (s ++ "/").toList = front ++ [c] ++ ['/'] := by rw [String.toList_append, spelled]; rfl
  refine ⟨(front.dropWhile isOuter).filter (!isPassedOver ·), c, ?_, ?_, plain⟩
  · show List.filter _ (((s.toList.dropWhile isOuter).reverse.dropWhile isOuter).reverse) = _
    rw [spelled, cut, List.filter_append]
    simp [kept]
  · show List.filter _ ((((s ++ "/").toList.dropWhile isOuter).reverse.dropWhile isOuter).reverse) = _
    rw [whole, cut', dropWhile_concat inner, List.filter_append, List.filter_append]
    have slash : isPassedOver '/' = false := by decide
    simp [kept, slash]

end EndsPlain

/-! ### Before the path -/

section
variable {u u' : Url} {cs rest : List Char} {scheme : String}

theorem scheme?_slash (cs : List Char) :
    scheme? (cs ++ ['/']) = (scheme? cs).map fun x => (x.1, x.2 ++ ['/']) := by
  have ends : ('/'.isAlphanum || '/' = '+' || '/' = '-' || '/' = '.') = false := by decide
  unfold scheme?
  rw [span_concat (p := fun c => c.isAlphanum || c = '+' || c = '-' || c = '.') ends]
  generalize cs.span (fun c => c.isAlphanum || c = '+' || c = '-' || c = '.') = parts
  obtain ⟨word, behind⟩ := parts
  cases word with
  | nil => rfl
  | cons first more =>
    cases behind with
    | nil => rfl
    | cons c behind =>
      by_cases colon : c = ':'
      · subst colon
        by_cases letter : first.isAlpha <;> simp [letter]
      · simp [colon]

theorem scheme?_suffix (found : scheme? cs = some (scheme, rest)) : rest <:+ cs := by
  have behind := span_snd_suffix (p := fun c => c.isAlphanum || c = '+' || c = '-' || c = '.') cs
  unfold scheme? at found
  dsimp only at found
  split at found
  · rename_i first more rest' word colon
    rw [colon] at behind
    split at found <;> cases found
    exact (List.suffix_cons ':' rest).trans behind
  · cases found

theorem readPort_slash (cs : List Char) :
    readPort (cs ++ ['/']) = (readPort cs).map fun x => (x.1, x.2 ++ ['/']) := by
  have ends : endsAuthority true '/' = true := by decide
  unfold readPort
  rw [span_concat (p := Char.isDigit) (by decide)]
  generalize cs.span Char.isDigit = parts
  obtain ⟨ds, behind⟩ := parts
  cases behind with
  | nil =>
    simp only [List.nil_append, ends]
    split <;> rfl
  | cons a more =>
    simp only [List.cons_append]
    split <;> rfl

theorem readPort_suffix {port : Option Nat} (read : readPort cs = .ok (port, rest)) : rest <:+ cs := by
  have behind := span_snd_suffix (p := Char.isDigit) cs
  unfold readPort at read
  generalize cs.span Char.isDigit = parts at read behind
  obtain ⟨ds, more⟩ := parts
  cases more with
  | nil =>
    dsimp only at read
    split at read <;> cases read
    exact behind
  | cons a more =>
    dsimp only at read
    split at read <;> cases read
    exact behind

/-- The port after the host, and what follows it. -/
def portBehind : List Char → List Char → Except UrlFlaw (Option Nat × List Char)
  | _ :: digits, rest => readPort (digits ++ rest)
  | [], rest => .ok (none, rest)

theorem portBehind_slash (after rest : List Char) :
    portBehind after (rest ++ ['/']) = (portBehind after rest).map fun x => (x.1, x.2 ++ ['/']) := by
  cases after with
  | nil => rfl
  | cons colon digits =>
    rw [portBehind, ← List.append_assoc]
    exact readPort_slash _

/-- What stands before the path of an address of the web: there must be a host. -/
theorem readAuthority_eq (common : u.isCommon = true) (cs : List Char) : readAuthority u cs =
    let parts := cs.span (!endsAuthority true ·)
    let signed := (atLastSign parts.1).getD ([], parts.1)
    let named := hostText false signed.2
    if named.1 = [] then .error .emptyHost
    else
      (Host.common named.1).bind fun host => (portBehind named.2 parts.2).map fun x =>
        ({ u with
          username := (credentialsOf signed.1).1
          password := (credentialsOf signed.1).2
          host := some host
          port := if x.1 = defaultPort? u.scheme then none else x.1 }, x.2) := by
  unfold readAuthority
  simp only [common, Bool.true_or, Bool.and_true, if_true]
  generalize cs.span (fun c => !endsAuthority true c) = parts
  generalize (atLastSign parts.1).isSome = isSigned
  generalize (atLastSign parts.1).getD ([], parts.1) = signed
  have empty : signed.2 = [] → (hostText false signed.2).1 = [] := fun e => by rw [e]; rfl
  generalize hostText false signed.2 = named at empty ⊢
  obtain ⟨text, after⟩ := named
  cases text with
  | nil =>
    rw [if_pos rfl]
    split <;> rfl
  | cons a text =>
    have some : signed.2.isEmpty = false := by
      cases e : signed.2 with
      | nil => cases empty e
      | cons => rfl
    simp only [some, Bool.and_false, Bool.false_and, Bool.false_eq_true, if_false, List.isEmpty_cons,
      reduceCtorEq]
    cases Host.common (a :: text) with
    | error e => rfl
    | ok host =>
      cases after with
      | nil => rfl
      | cons colon digits =>
        show (readPort (digits ++ parts.2) >>= fun x => _) = _
        simp only [portBehind]
        cases readPort (digits ++ parts.2) <;> rfl

theorem readAuthority_slash (common : u.isCommon = true) (cs : List Char) :
    readAuthority u (cs ++ ['/']) = (readAuthority u cs).map fun x => (x.1, x.2 ++ ['/']) := by
  have ends : (!endsAuthority true '/') = false := by decide
  rw [readAuthority_eq common, readAuthority_eq common]
  dsimp only
  rw [span_concat (p := fun c => !endsAuthority true c) ends]
  generalize cs.span (fun c => !endsAuthority true c) = parts
  generalize (atLastSign parts.1).getD ([], parts.1) = signed
  generalize hostText false signed.2 = named
  split
  · rfl
  · cases Host.common named.1 with
    | error e => rfl
    | ok host =>
      show Except.map _ (portBehind _ _) = _
      rw [portBehind_slash]
      show Except.map _ (Except.map _ _) = Except.map _ (Except.map _ _)
      cases portBehind named.2 parts.2 <;> rfl

theorem readAuthority_nil (common : u.isCommon = true) : readAuthority u [] = .error .emptyHost :=
  readAuthority_eq common []

theorem hostText_append (inside : Bool) (cs : List Char) :
    (hostText inside cs).1 ++ (hostText inside cs).2 = cs := by
  fun_induction hostText inside cs with
  | case1 => rfl
  | case2 => rfl
  | case3 inside c rest colon inner host after found ih =>
    rw [found] at ih
    exact congrArg (c :: ·) ih

theorem atLastSign_suffix (cs : List Char) : ((atLastSign cs).getD ([], cs)).2 <:+ cs := by
  unfold atLastSign
  rw [List.span_eq_takeWhile_dropWhile]
  cases cs.reverse.dropWhile (· ≠ '@') with
  | nil => exact List.suffix_refl cs
  | cons sign before =>
    have front := List.takeWhile_prefix (l := cs.reverse) (· ≠ '@')
    rw [← List.reverse_suffix, List.reverse_reverse] at front
    exact front

theorem portBehind_suffix {after : List Char} {port : Option Nat}
    (read : portBehind after cs = .ok (port, rest)) : rest <:+ after ++ cs := by
  cases after with
  | nil =>
    cases read
    exact List.suffix_refl _
  | cons colon digits => exact (readPort_suffix read).trans (List.suffix_cons colon _)

theorem readAuthority_suffix (common : u.isCommon = true) (read : readAuthority u cs = .ok (u', rest)) :
    rest <:+ cs := by
  rw [readAuthority_eq common] at read
  dsimp only at read
  rw [List.span_eq_takeWhile_dropWhile] at read
  have whole := List.takeWhile_append_dropWhile (p := fun c => !endsAuthority true c) (l := cs)
  generalize cs.takeWhile _ = authority at read whole
  generalize cs.dropWhile _ = more at read whole
  have inner := atLastSign_suffix authority
  generalize (atLastSign authority).getD ([], authority) = signed at read inner
  have named := hostText_append false signed.2
  generalize hostText false signed.2 = found at read named
  split at read
  · cases read
  generalize Host.common found.1 = host at read
  generalize behind : portBehind found.2 more = port at read
  cases host with
  | error e => cases read
  | ok host =>
    cases port <;> cases read
    have after : found.2 <:+ authority := List.IsSuffix.trans ⟨found.1, named⟩ inner
    rw [← whole]
    exact (portBehind_suffix behind).trans (List.suffix_append_self_iff.2 after)

theorem readAuthority_scheme (read : readAuthority u cs = .ok (u', rest)) : u'.scheme = u.scheme := by
  unfold readAuthority at read
  simp only [bind, Except.bind, pure, Except.pure, throw, throwThe, MonadExceptOf.throw] at read
  repeat' split at read
  all_goals first | cases read; done | (cases read; rfl)

theorem readFile_scheme (read : u.readFile cs = .ok u') : u'.scheme = u.scheme := by
  unfold readFile at read
  simp only [bind, Except.bind, pure, Except.pure] at read
  repeat' split at read
  all_goals first | cases read; done | (cases read; rfl)

end

/-! ### The path -/

theorem encode_ne_nil {escaped : Char → Bool} {cs : List Char} (h : cs ≠ []) :
    Percent.encode escaped cs ≠ [] := by
  cases cs with
  | nil => exact absurd rfl h
  | cons c cs =>
    rw [Percent.encode, List.flatMap_cons]
    intro e
    have first := (List.append_eq_nil_iff.1 e).1
    unfold Percent.encodeChar at first
    split at first
    · cases spelled : String.utf8EncodeChar c with
      | nil =>
        have size := String.length_utf8EncodeChar c
        rw [spelled, List.length_nil] at size
        exact absurd size.symm (Nat.ne_of_gt c.utf8Size_pos)
      | cons b bs =>
        rw [spelled] at first
        cases first
    · cases first

theorem splitOnP_concat {p : Char → Bool} {c : Char} (h : p c = false) (cs : List Char) :
    ∃ parts last, (cs ++ [c]).splitOnP p = parts ++ [last ++ [c]] := by
  induction cs with
  | nil => exact ⟨[], [], List.splitOnP_eq_singleton (by simpa using h)⟩
  | cons a cs ih =>
    obtain ⟨parts, last, split⟩ := ih
    rw [List.cons_append, List.splitOnP_cons_eq_if_modifyHead, split]
    split_ifs
    · exact ⟨[] :: parts, last, rfl⟩
    · cases parts with
      | nil => exact ⟨[], a :: last, rfl⟩
      | cons part parts => exact ⟨(a :: part) :: parts, last, rfl⟩

/-- The segments that a path has before its last one. -/
def walked (segments : List String) : List String := segments.foldl (addSegment · false ·) []

theorem foldl_zipIdx {n start : Nat} (segments : List String) (inside : start + segments.length < n)
    (list : List String) :
    (segments.zipIdx start).foldl (fun list (s, i) => addSegment list (i + 1 == n) s) list =
      segments.foldl (addSegment · false ·) list := by
  induction segments generalizing start list with
  | nil => rfl
  | cons s segments ih =>
    rw [List.length_cons] at inside
    have notLast : (start + 1 == n) = false := by simpa using Nat.ne_of_lt (by omega)
    rw [List.zipIdx_cons, List.foldl_cons, List.foldl_cons, ih (by omega)]
    dsimp only
    rw [notLast]

theorem segmentsOf_eq {common : Bool} {cs : List Char} (front : List String) (s : String)
    (raw : (cs.splitOnP (isSlash common)).map (fun s => String.ofList (Percent.encode Percent.path s)) =
      front ++ [s]) : segmentsOf common cs = addSegment (walked front) true s := by
  unfold segmentsOf
  dsimp only
  rw [raw, List.zipIdx_append, List.foldl_append, foldl_zipIdx front (by simp)]
  simp [walked]

theorem addSegment_empty (list : List String) (isLast : Bool) : addSegment list isLast "" = list ++ [""] := by
  rfl

/-- One more slash is one more empty segment, which an endpoint takes the place of; behind a segment that
stands for a place there is an empty one already. -/
theorem stem_segmentsOf_slash {cs : List Char} {c : Char} (plain : isSlash true c = false) :
    stem (segmentsOf true (cs ++ [c] ++ ['/'])) = stem (segmentsOf true (cs ++ [c])) := by
  have slash : isSlash true '/' = true := by decide
  obtain ⟨parts, last, split⟩ := splitOnP_concat plain cs
  have split' : (cs ++ [c] ++ ['/']).splitOnP (isSlash true) = parts ++ [last ++ [c]] ++ [[]] := by
    rw [List.splitOnP_append_cons _ _ slash, split, List.splitOnP_nil]
  let written (cs : List Char) : String := String.ofList (Percent.encode Percent.path cs)
  have some : written (last ++ [c]) ≠ "" := by
    intro e
    exact encode_ne_nil (by simp) (String.ofList_eq_empty_iff.1 e)
  have without : segmentsOf true (cs ++ [c]) =
      addSegment (walked (parts.map written)) true (written (last ++ [c])) :=
    segmentsOf_eq _ _ (by rw [split]; simp [written])
  have behind : segmentsOf true (cs ++ [c] ++ ['/']) =
      addSegment (walked (parts.map written)) false (written (last ++ [c])) ++ [""] := by
    rw [segmentsOf_eq (parts.map written ++ [written (last ++ [c])]) ""
      (by rw [split']; simp [written, Percent.encode]), addSegment_empty, walked, List.foldl_append]
    rfl
  rw [behind, without]
  generalize written (last ++ [c]) = s at some
  generalize walked (parts.map written) = front
  by_cases above : isAbove s
  · simp [addSegment, above]
  by_cases here : isHere s
  · simp [addSegment, above, here]
  · have short : front ++ [s] ≠ ["", ""] := fun e => some (by simpa using congrArg List.getLast? e)
    have long : front ++ [s, ""] ≠ ["", ""] := by
      intro e
      cases front with
      | nil => exact some (by simpa using e)
      | cons a front => simpa using congrArg List.length e
    rw [Client.stem_eq, Client.stem_eq]
    simp [addSegment, above, here, some, short, long]

theorem stem_pathOf_slash {cs : List Char}
    (ends : cs = [] ∨ ∃ front c, cs = front ++ [c] ∧ isSlash true c = false) :
    stem (pathOf true (cs ++ ['/'])) = stem (pathOf true cs) := by
  rcases ends with rfl | ⟨front, c, rfl, plain⟩
  · have root : pathOf true ([] ++ ['/']) = [""] := by
      show segmentsOf true [] = [""]
      rw [segmentsOf_eq [] "" (by simp [List.splitOnP_nil, Percent.encode])]
      rfl
    rw [root]
    rfl
  · cases front with
    | nil =>
      have here : (if isSlash true c = true then ['/'] else [c, '/']) = [] ++ [c] ++ ['/'] := by simp [plain]
      show stem (segmentsOf true (if isSlash true c then ['/'] else [c, '/'])) =
        stem (segmentsOf true (if isSlash true c then [] else [c]))
      rw [here, stem_segmentsOf_slash plain, plain]
      rfl
    | cons a front =>
      show stem (segmentsOf true (if isSlash true a then front ++ [c] ++ ['/'] else a :: front ++ [c] ++ ['/']))
        = stem (segmentsOf true (if isSlash true a then front ++ [c] else a :: front ++ [c]))
      split_ifs
      · exact stem_segmentsOf_slash plain
      · exact stem_segmentsOf_slash plain

/-! ### The whole address -/

section
variable {s : String} {u : Url}

/-- The scheme is one of the two of the web. -/
def IsWeb (u : Url) : Prop := u.scheme = "http" ∨ u.scheme = "https"

/-- Neither a query nor a fragment follows the path. -/
def IsBare (u : Url) : Prop := u.query = none ∧ u.fragment = none

theorem scheme_of_parse (parsed : parse s = .ok u) :
    ∃ cs, scheme? (significant s) = some (u.scheme, cs) := by
  unfold parse at parsed
  split at parsed
  · cases parsed
  · rename_i scheme cs found
    refine ⟨cs, ?_⟩
    rw [found]
    have same : u.scheme = scheme := by
      dsimp only at parsed
      split at parsed
      · exact readFile_scheme parsed
      · split at parsed
        · generalize read : readAuthority _ _ = result at parsed
          cases result <;> cases parsed
          exact readAuthority_scheme read
        · split at parsed
          · generalize read : readAuthority _ _ = result at parsed
            cases result <;> cases parsed
            exact readAuthority_scheme read
          · cases parsed
            rfl
          · cases parsed
            rfl
    rw [same]

theorem isCommon_of_isWeb (web : u.IsWeb) : u.isCommon = true := by
  rcases web with e | e <;> rw [isCommon, e] <;> decide

theorem nothing_of_isBare {cs : List Char} (bare : (u.readEnd cs).IsBare) : cs = [] := by
  obtain ⟨query, fragment⟩ := bare
  have whole := List.takeWhile_append_dropWhile (p := fun c => decide (c ≠ '#')) (l := cs)
  simp only [readEnd, List.span_eq_takeWhile_dropWhile] at query fragment
  rw [← whole]
  generalize cs.takeWhile _ = before at query
  generalize cs.dropWhile _ = after at fragment
  cases before with
  | nil =>
    cases after with
    | nil => rfl
    | cons => cases fragment
  | cons => cases query

/-- A character of a path. -/
def isInPath (c : Char) : Bool := c ≠ '?' && c ≠ '#'

theorem atEnd_eq_nil_iff {cs : List Char} : (atEnd cs).2 = [] ↔ cs.all isInPath = true := by
  rw [atEnd, List.span_eq_takeWhile_dropWhile, List.dropWhile_eq_nil_iff, List.all_eq_true]
  rfl

theorem atEnd_of_all {cs : List Char} (h : cs.all isInPath = true) : atEnd cs = (cs, []) := by
  refine Prod.ext ?_ (atEnd_eq_nil_iff.2 h)
  rw [atEnd, List.span_eq_takeWhile_dropWhile, List.takeWhile_eq_self_iff]
  exact List.all_eq_true.1 h

/-- The address with what is read behind the host. -/
def finish (u : Url) (rest : List Char) : Url :=
  ({ u with path := .segments (pathOf true (atEnd rest).1) }).readEnd (atEnd rest).2

theorem finish_isBare_iff {rest : List Char} : (u.finish rest).IsBare ↔ rest.all isInPath = true := by
  rw [← atEnd_eq_nil_iff]
  refine ⟨nothing_of_isBare, fun nothing => ?_⟩
  rw [finish, nothing]
  exact ⟨rfl, rfl⟩

theorem finish_onPath {path path' : List Char} (all : path.all isInPath = true)
    (all' : path'.all isInPath = true) : u.finish path' = (u.finish path).onPath (pathOf true path') := by
  rw [finish, finish, atEnd_of_all all, atEnd_of_all all']
  rfl

/-- The text is an address with this scheme: `u` up to its path, and behind that these characters. -/
def IsReadAs (s scheme : String) (u : Url) (rest : List Char) : Prop :=
  ∃ cs, scheme? (significant s) = some (scheme, cs) ∧
    readAuthority { scheme } (cs.dropWhile (isSlash true)) = .ok (u, rest)

theorem parse_eq_ok_iff (web : u.IsWeb) : parse s = .ok u ↔
    ∃ u' rest, IsReadAs s u.scheme u' rest ∧ u = u'.finish rest := by
  have common : ({ scheme := u.scheme } : Url).isCommon = true := isCommon_of_isWeb web
  have other : u.scheme ≠ "file" := by rcases web with e | e <;> rw [e] <;> decide
  have reads {cs : List Char} (found : scheme? (significant s) = some (u.scheme, cs)) : parse s =
      (readAuthority { scheme := u.scheme } (cs.dropWhile (isSlash true))).map fun x => x.1.finish x.2 := by
    unfold parse
    rw [found]
    simp only [common, other, if_true, if_false]
    cases readAuthority { scheme := u.scheme } (cs.dropWhile (isSlash true)) <;> rfl
  constructor
  · intro parsed
    obtain ⟨cs, found⟩ := scheme_of_parse parsed
    rw [reads found] at parsed
    generalize read : readAuthority _ _ = result at parsed
    cases result with
    | error e => cases parsed
    | ok x => exact ⟨x.1, x.2, ⟨cs, found, read⟩, (Except.ok.inj parsed).symm⟩
  · rintro ⟨u', rest, ⟨cs, found, read⟩, whole⟩
    rw [reads found, read, whole]
    rfl

/-- A slash behind the text is a slash behind what is left when the host is read. -/
theorem isReadAs_slash {scheme : String} {rest : List Char} (ends : EndsPlain s)
    (common : ({ scheme } : Url).isCommon = true) :
    IsReadAs (s ++ "/") scheme u rest ↔ ∃ rest', rest = rest' ++ ['/'] ∧ IsReadAs s scheme u rest' := by
  obtain ⟨front, c, spelled, longer, plain⟩ := ends.significant
  have head : scheme? (significant (s ++ "/")) =
      (scheme? (significant s)).map fun x => (x.1, x.2 ++ ['/']) := by
    rw [longer, spelled, scheme?_slash]
  have slashes (cs : List Char) : readAuthority { scheme } ((cs ++ ['/']).dropWhile (isSlash true)) =
      (readAuthority { scheme } (cs.dropWhile (isSlash true))).map fun x => (x.1, x.2 ++ ['/']) := by
    have slash : isSlash true '/' = true := by decide
    rw [List.dropWhile_append]
    cases cs.dropWhile (isSlash true) with
    | nil => simp [slash, readAuthority_nil common, Except.map]
    | cons a cs => exact readAuthority_slash common (a :: cs)
  constructor
  · rintro ⟨_, found, read⟩
    rw [head, Option.map_eq_some_iff] at found
    obtain ⟨⟨scheme', cs⟩, found, same⟩ := found
    cases same
    rw [slashes] at read
    generalize read' : readAuthority _ _ = result at read
    cases result <;> cases read
    exact ⟨_, rfl, cs, found, read'⟩
  · rintro ⟨rest', rfl, cs, found, read⟩
    refine ⟨cs ++ ['/'], by rw [head, found]; rfl, ?_⟩
    rw [slashes, read]
    rfl

/-- What is left when the host is read ends as the text does. -/
theorem IsReadAs.ends {scheme : String} {rest : List Char} (h : IsReadAs s scheme u rest)
    (ends : EndsPlain s) (common : ({ scheme } : Url).isCommon = true) :
    rest = [] ∨ ∃ front c, rest = front ++ [c] ∧ isSlash true c = false := by
  obtain ⟨front, c, spelled, -, plain⟩ := ends.significant
  obtain ⟨cs, found, read⟩ := h
  have suffix : rest <:+ front ++ [c] := by
    have inner := (readAuthority_suffix common read).trans (List.dropWhile_suffix _)
    rw [← spelled]
    exact inner.trans (scheme?_suffix found)
  rcases List.suffix_concat_iff.1 suffix with none | ⟨front, some, -⟩
  · exact .inl none
  · exact .inr ⟨front, c, some, plain⟩

/-- The two are one address but for the end of the path, behind which endpoints are put at the same place. -/
def SameStem (u v : Url) : Prop := ∃ list list', u.path = .segments list ∧ v = u.onPath list' ∧ stem list' = stem list

theorem SameStem.symm {u v : Url} (h : SameStem u v) : SameStem v u := by
  obtain ⟨list, list', path, rfl, same⟩ := h
  refine ⟨list', list, rfl, ?_, same.symm⟩
  cases u
  cases path
  rfl

theorem finish_sameStem {scheme : String} {rest : List Char} (h : IsReadAs s scheme u rest)
    (ends : EndsPlain s) (common : ({ scheme } : Url).isCommon = true)
    (all : rest.all isInPath = true) (all' : (rest ++ ['/']).all isInPath = true) :
    SameStem (u.finish rest) (u.finish (rest ++ ['/'])) := by
  refine ⟨pathOf true rest, pathOf true (rest ++ ['/']), ?_, finish_onPath all all',
    stem_pathOf_slash (h.ends ends common)⟩
  rw [finish, atEnd_of_all all]
  rfl

/-- Of an address of the web and the one with a slash behind it, both can be read or none. -/
theorem parse_slash (ends : EndsPlain s) (web : u.IsWeb) (bare : u.IsBare) :
    (parse s = .ok u → ∃ v, parse (s ++ "/") = .ok v ∧ SameStem u v) ∧
      (parse (s ++ "/") = .ok u → ∃ v, parse s = .ok v ∧ SameStem u v) := by
  have common : ({ scheme := u.scheme } : Url).isCommon = true := isCommon_of_isWeb web
  have slashed (rest : List Char) : (rest ++ ['/']).all isInPath = rest.all isInPath := by
    simp [List.all_append, isInPath]
  constructor
  · intro parsed
    obtain ⟨u', rest, read, rfl⟩ := (parse_eq_ok_iff web).1 parsed
    have all := finish_isBare_iff.1 bare
    have all' := (slashed rest).trans all
    refine ⟨_, ?_, finish_sameStem read ends common all all'⟩
    have web' : (u'.finish (rest ++ ['/'])).IsWeb := web
    exact (parse_eq_ok_iff web').2 ⟨u', _, (isReadAs_slash ends common).2 ⟨rest, rfl, read⟩, rfl⟩
  · intro parsed
    obtain ⟨u', _, read', rfl⟩ := (parse_eq_ok_iff web).1 parsed
    obtain ⟨rest, rfl, read⟩ := (isReadAs_slash ends common).1 read'
    have all' := finish_isBare_iff.1 bare
    have all := (slashed rest).symm.trans all'
    refine ⟨_, ?_, (finish_sameStem read ends common all all').symm⟩
    have web' : (u'.finish rest).IsWeb := web
    exact (parse_eq_ok_iff web').2 ⟨u', _, read, rfl⟩

end

end Url

namespace Client
open Url

theorem create_eq_ok_iff {settings : ApiSettings} {c : Client} : create settings = .ok c ↔
    parse (Text.trim settings.baseUrl) = .ok c.base ∧ (∃ base, c.base.path = .segments base) ∧
      c.settings = settings := by
  obtain ⟨own, u⟩ := c
  simp only [create]
  split
  · rename_i empty
    have none : parse "" = .error .relative := by rfl
    rw [String.isEmpty_iff.1 empty, none]
    constructor
    · intro made
      cases made
    · rintro ⟨made, -⟩
      cases made
  · cases read : parse (Text.trim settings.baseUrl) with
    | error flaw => simp
    | ok v =>
      cases path : v.path with
      | segments list =>
        simp only [path]
        constructor
        · intro made
          cases made
          exact ⟨rfl, ⟨list, path⟩, rfl⟩
        · rintro ⟨same, -, rfl⟩
          cases same
          rfl
      | rootless text =>
        simp only [path]
        constructor
        · intro made
          cases made
        · rintro ⟨same, ⟨base, path'⟩, -⟩
          cases same
          rw [path] at path'
          cases path'

/-- Both have the same endpoints for every id. -/
def SameEndpoints (c c' : Client) : Prop :=
  ∀ id, c'.schemaUrl id = c.schemaUrl id ∧ c'.fragmentUrl id = c.fragmentUrl id

theorem sameEndpoints_of_sameStem {c c' : Client} (h : SameStem c.base c'.base) : SameEndpoints c c' := by
  obtain ⟨list, list', path, same, stems⟩ := h
  have path' : c'.base.path = .segments list' := by rw [same]; rfl
  have common : c'.base.isCommon = c.base.isCommon := by rw [same]; rfl
  intro id
  constructor
  · rw [schemaUrl_eq path, schemaUrl_eq path', stems, common, same]
    rfl
  · rw [fragmentUrl_eq path, fragmentUrl_eq path', stems, common, same]
    rfl

/-- With a slash behind its base address or without, a client has the same endpoints. -/
theorem create_slash {settings : ApiSettings} {c : Client} {text : String} (ends : EndsPlain text)
    (accepted : create settings = .ok c) (web : c.base.IsWeb) (bare : c.base.IsBare)
    (base : settings.baseUrl = text ∨ settings.baseUrl = text ++ "/") {other : String}
    (either : other = text ∨ other = text ++ "/") :
    ∃ c', create { settings with baseUrl := other } = .ok c' ∧ SameEndpoints c c' := by
  have same {other : String} (e : settings.baseUrl = other) :
      ∃ c', create { settings with baseUrl := other } = .ok c' ∧ SameEndpoints c c' := by
    subst e
    exact ⟨c, accepted, fun id => ⟨rfl, rfl⟩⟩
  obtain ⟨parsed, -, -⟩ := create_eq_ok_iff.1 accepted
  obtain ⟨longer, shorter⟩ := parse_slash ends.trim web bare
  have made {v : Url} (parsed' : parse (Text.trim other) = .ok v) (stems : SameStem c.base v) :
      ∃ c', create { settings with baseUrl := other } = .ok c' ∧ SameEndpoints c c' := by
    refine ⟨⟨_, v⟩, create_eq_ok_iff.2 ⟨parsed', ?_, rfl⟩, sameEndpoints_of_sameStem stems⟩
    obtain ⟨-, list, -, rfl, -⟩ := stems
    exact ⟨list, rfl⟩
  rcases base with base | base
  · rcases either with rfl | rfl
    · exact same base
    · rw [base] at parsed
      obtain ⟨v, parsed', stems⟩ := longer parsed
      exact made (ends.trim_slash ▸ parsed') stems
  · rcases either with rfl | rfl
    · rw [base, ends.trim_slash] at parsed
      obtain ⟨v, parsed', stems⟩ := shorter parsed
      exact made parsed' stems
    · exact same base

end Client
end StrategyForm.Web
