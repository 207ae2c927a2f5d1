import Hermione.GitHubRepo

/-!
# Percent-encoding

One way of writing and reading URLs that does what the URL crate documents.
-/

namespace Hermione

namespace Str

theorem split_eq_singleton {separator : Char} {text : Str} (clean : separator ∉ text) :
    split separator text = [text] := by
  induction text with
  | nil => rfl
  | cons char text ih =>
      rw [List.mem_cons, not_or] at clean
      rw [split_cons, if_neg (Ne.symm clean.1), ih clean.2, List.modifyHead_cons]

/-- What pieces were put together to is split into the same pieces. -/
theorem split_intercalate {separator : Char} {pieces : List Str} (nonempty : pieces ≠ [])
    (clean : ∀ piece ∈ pieces, separator ∉ piece) :
    split separator ([separator].intercalate pieces) = pieces := by
  induction pieces with
  | nil => exact absurd rfl nonempty
  | cons piece pieces ih =>
      have first := split_eq_singleton (clean piece List.mem_cons_self)
      cases pieces with
      | nil => rw [List.intercalate_singleton, first]
      | cons next pieces =>
          have rest := ih (List.cons_ne_nil next pieces) fun other member =>
            clean other (List.mem_cons_of_mem piece member)
          rw [List.intercalate_cons_cons, List.append_assoc, List.singleton_append, split_append,
            first, rest, List.singleton_append]

theorem not_mem_intercalate {separator char : Char} {pieces : List Str}
    (apart : char ≠ separator) (clean : ∀ piece ∈ pieces, char ∉ piece) :
    char ∉ [separator].intercalate pieces := by
  induction pieces with
  | nil => simp
  | cons piece pieces ih =>
      have first := clean piece List.mem_cons_self
      have rest := ih fun other member => clean other (List.mem_cons_of_mem piece member)
      cases pieces with
      | nil => rwa [List.intercalate_singleton]
      | cons next pieces =>
          rw [List.intercalate_cons_cons, List.mem_append, List.mem_append, List.mem_singleton]
          tauto

end Str

def hexDigit (digit : Nat) : Char :=
  "0123456789ABCDEF".toList.getD digit '0'

/-- A character as the bytes of its UTF-8 encoding, each in hexadecimal. -/
def percentEncoded (char : Char) : Str :=
  (String.utf8EncodeChar char).flatMap fun byte =>
    ['%', hexDigit (byte.toNat / 16), hexDigit (byte.toNat % 16)]

def isSafeChar (char : Char) : Bool :=
  char.isAlphanum || "._-".toList.contains char

/-- A text with all characters encoded but those that are safe and some others. -/
def percentEncode (others : Str) (text : Str) : Str :=
  text.flatMap fun char =>
    if isSafeChar char || others.elem char then [char] else percentEncoded char

def readQuery (text : Str) : List (Str × Str) :=
  (Str.split '&' text).map fun pair =>
    match Str.split '=' pair with
    | [name, value] => (name, value)
    | _ => (pair, [])

def readAfterScheme (rest : Str) : Option Url :=
  let (path, query) :=
    match Str.split '?' rest with
    | [path, query] => (path, readQuery query)
    | _ => (rest, [])
  match Str.split '/' path with
  | host :: segments => some { origin := HTTPS ++ host, path := segments, query }
  | [] => none

def readUrl (text : Str) : Option Url :=
  (Str.stripPrefix HTTPS text).bind readAfterScheme

/-- URLs written and read so. -/
def percentUrls : UrlCrate where
  parse := readUrl
  encodeSegment := percentEncode "!$&'()*+,;=:@~".toList
  encodeQuery := percentEncode "*".toList
  extend url segments :=
    { url with path := url.path ++
        (segments.filter (!isDots ·)).map (percentEncode "!$&'()*+,;=:@~".toList) }
  appendPair url name value := { url with query := url.query ++ [(name, value)] }

theorem percentEncode_safe (others : Str) {text : Str} (safe : ∀ char ∈ text, isSafeChar char) :
    percentEncode others text = text := by
  induction text with
  | nil => rfl
  | cons char text ih =>
      rw [percentEncode, List.flatMap_cons, safe char List.mem_cons_self, Bool.true_or, if_pos rfl]
      exact congrArg (char :: ·) (ih fun other member => safe other (List.mem_cons_of_mem _ member))

theorem isSafeChar_of_isSafeSegment {segment : Str} (safe : isSafeSegment segment = true) :
    ∀ char ∈ segment, isSafeChar char = true := by
  simp only [isSafeSegment, Bool.and_eq_true, List.all_eq_true] at safe
  exact safe.2

theorem isHexDigit_hexDigit (digit : Nat) : isHexDigit (hexDigit digit) = true := by
  rw [isHexDigit, hexDigit, List.contains_eq_mem, decide_eq_true_eq, List.getD_eq_getElem?_getD]
  cases found : "0123456789ABCDEF".toList[digit]? with
  | none => decide
  | some char => exact List.mem_of_getElem? found

theorem percentEncoded_encoded (char : Char) : PercentEncoded (percentEncoded char) := by
  rw [percentEncoded]
  induction String.utf8EncodeChar char with
  | nil => exact .nil
  | cons byte bytes ih =>
      rw [List.flatMap_cons]
      exact .escaped ⟨isHexDigit_hexDigit _, isHexDigit_hexDigit _⟩ ih

theorem percentEncode_encoded {others : Str}
    (kept : others.all (fun char => char ∉ "/?#%".toList) = true) (text : Str) :
    PercentEncoded (percentEncode others text) := by
  have never : "/?#%".toList.all (fun char => !isSafeChar char) = true := by decide
  induction text with
  | nil => exact .nil
  | cons char text ih =>
      rw [percentEncode, List.flatMap_cons]
      apply PercentEncoded.append _ ih
      split
      · next stays =>
          refine .kept ?_ .nil
          rw [Bool.or_eq_true] at stays
          rcases stays with safe | other
          · intro bad
            have unsafeChar := List.all_eq_true.mp never char bad
            rw [safe] at unsafeChar
            cases unsafeChar
          · exact of_decide_eq_true (List.all_eq_true.mp kept char (List.elem_iff.mp other))
      · exact percentEncoded_encoded char

theorem percentUrls_builds : percentUrls.Builds where
  encodes := percentEncode_encoded (by decide)
  extend _ _ := rfl
  appendPair _ _ _ := rfl
  keeps _ safe := percentEncode_safe _ (isSafeChar_of_isSafeSegment safe)
  keepsQuery _ safe := percentEncode_safe _ (isSafeChar_of_isSafeSegment safe)

/-- No character that means something in a URL is safe. -/
theorem not_mem_of_safe {char : Char} (unsafeChar : isSafeChar char = false) {text : Str}
    (safe : text = [] ∨ isSafeSegment text = true) : char ∉ text := by
  rcases safe with rfl | safe
  · exact List.not_mem_nil
  · intro member
    rw [isSafeChar_of_isSafeSegment safe char member] at unsafeChar
    cases unsafeChar

theorem readQuery_written {query : List (Str × Str)} (nonempty : query ≠ [])
    (safe : ∀ pair ∈ query, isSafeSegment pair.1 = true ∧ isSafeSegment pair.2 = true) :
    readQuery (['&'].intercalate (query.map fun (name, value) => name ++ '=' :: value)) =
      query := by
  have clean : ∀ char pair, isSafeChar char = false → char ≠ '=' → pair ∈ query →
      char ∉ pair.1 ++ '=' :: pair.2 := by
    intro char pair other apart member
    rw [List.mem_append, List.mem_cons]
    rintro (name | same | value)
    · exact not_mem_of_safe other (.inr (safe pair member).1) name
    · exact apart same
    · exact not_mem_of_safe other (.inr (safe pair member).2) value
  rw [readQuery, Str.split_intercalate (by simpa using nonempty)]
  · rw [List.map_map]
    conv_rhs => rw [← List.map_id query]
    apply List.map_congr_left
    intro pair member
    obtain ⟨name, value⟩ := pair
    have equals : isSafeChar '=' = false := by decide
    rw [Function.comp_apply, Str.split_append,
      Str.split_eq_singleton (not_mem_of_safe equals (.inr (safe _ member).1)),
      Str.split_eq_singleton (not_mem_of_safe equals (.inr (safe _ member).2))]
    rfl
  · intro piece member
    obtain ⟨pair, among, rfl⟩ := List.mem_map.mp member
    exact clean '&' pair (by decide) (by decide) among

theorem map_encodeQuery {query : List (Str × Str)}
    (safe : ∀ pair ∈ query, isSafeSegment pair.1 = true ∧ isSafeSegment pair.2 = true) :
    (query.map fun (name, value) =>
      percentUrls.encodeQuery name ++ '=' :: percentUrls.encodeQuery value) =
      query.map fun (name, value) => name ++ '=' :: value := by
  apply List.map_congr_left
  rintro ⟨name, value⟩ member
  obtain ⟨first, second⟩ := safe (name, value) member
  exact congrArg₂ (fun name value => name ++ '=' :: value)
    (percentUrls_builds.keepsQuery name first) (percentUrls_builds.keepsQuery value second)

theorem percentUrls_reads : percentUrls.Reads := by
  intro url tidy
  obtain ⟨host, safe, origin⟩ := tidy.origin
  have splitPath : Str.split '/' (host ++ '/' :: ['/'].intercalate url.path) =
      host :: url.path := by
    have slash : isSafeChar '/' = false := by decide
    rw [Str.split_append, Str.split_eq_singleton (not_mem_of_safe slash (.inr safe)),
      Str.split_intercalate tidy.path fun segment member =>
        not_mem_of_safe slash (tidy.segment segment member), List.singleton_append]
  have question : isSafeChar '?' = false := by decide
  have unasked : '?' ∉ host ++ '/' :: ['/'].intercalate url.path := by
    rw [List.mem_append, List.mem_cons]
    rintro (inHost | same | inPath)
    · exact not_mem_of_safe question (.inr safe) inHost
    · cases same
    · exact Str.not_mem_intercalate (by decide)
        (fun segment member => not_mem_of_safe question (tidy.segment segment member)) inPath
  change (Str.stripPrefix HTTPS (percentUrls.asStr url)).bind readAfterScheme = some url
  obtain ⟨_, path, query⟩ := url
  subst origin
  cases query with
  | nil =>
      have written : percentUrls.asStr { origin := HTTPS ++ host, path, query := [] } =
          HTTPS ++ (host ++ '/' :: ['/'].intercalate path) :=
        List.append_assoc ..
      rw [written, Str.stripPrefix_eq_some_iff.mpr rfl, Option.bind_some, readAfterScheme,
        Str.split_eq_singleton unasked]
      simp only [splitPath]
  | cons pair pairs =>
      have written : percentUrls.asStr
            { origin := HTTPS ++ host, path, query := pair :: pairs } =
          HTTPS ++ ((host ++ '/' :: ['/'].intercalate path) ++ '?' ::
            ['&'].intercalate ((pair :: pairs).map fun (name, value) => name ++ '=' :: value)) := by
        rw [← map_encodeQuery tidy.query, ← List.append_assoc, ← List.append_assoc]
        rfl
      have asked : '?' ∉ ['&'].intercalate
          ((pair :: pairs).map fun (name, value) => name ++ '=' :: value) := by
        apply Str.not_mem_intercalate (by decide)
        intro piece member
        obtain ⟨⟨name, value⟩, among, rfl⟩ := List.mem_map.mp member
        obtain ⟨first, second⟩ := tidy.query (name, value) among
        rw [List.mem_append, List.mem_cons]
        rintro (inName | same | inValue)
        · exact not_mem_of_safe question (.inr first) inName
        · cases same
        · exact not_mem_of_safe question (.inr second) inValue
      rw [written, Str.stripPrefix_eq_some_iff.mpr rfl, Option.bind_some, readAfterScheme,
        Str.split_append, Str.split_eq_singleton unasked, Str.split_eq_singleton asked]
      simp only [List.singleton_append, splitPath,
        readQuery_written (List.cons_ne_nil pair pairs) tidy.query]

end Hermione
