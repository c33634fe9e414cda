import EasyWaf.Gateway.Settings
import EasyWaf.Text.Utf8

/-!
# What the application is not shown

`SiteAuth::strip` takes off a request what only the gateway may say: the two
identity headers and the session cookie.  The cookie is taken out of the first
`Cookie` header, which is read as text and written back in place of them all.
-/

namespace EasyWaf.Gateway

open Http

def sessionCookie : Text := "easywaf_gate".toList

def cookieHeader : Text := "cookie".toList

/-- A cookie's name, as the gateway reads it: up to the first `=`, or all of it. -/
def nameOf (pair : Text) : Text := ((Text.splitOnce '=' pair).map Prod.fst).getD pair

/-- `strip_cookie`. -/
def stripCookie (headers : HeaderMap) (name : Text) : HeaderMap :=
  match headers.get cookieHeader with
  | none => headers
  | some raw =>
      let pairs := Text.pieces ';' (Text.fromUtf8Lossy raw.bytes)
      let kept := pairs.filter fun pair => pair ≠ [] ∧ nameOf pair ≠ name
      if kept.length = (pairs.filter (· ≠ [])).length then headers
      else
        match HeaderValue.fromBytes (Text.join "; ".toList kept).bytes with
        | some value =>
            if kept ≠ [] then headers.insert cookieHeader value
            else headers.remove cookieHeader
        | none => headers.remove cookieHeader

/-- `SiteAuth::strip`. -/
def SiteAuth.strip (auth : SiteAuth) (headers : HeaderMap) : HeaderMap :=
  stripCookie ((headers.remove auth.userHeader).remove auth.groupsHeader) sessionCookie

section Cookies

abbrev Cookie := List UInt8

def isBlank (byte : UInt8) : Bool := byte == 32 || byte == 9

/-- The cookies of a `Cookie` header's value, byte for byte. -/
def cookiesOf (value : HeaderValue) : List Cookie :=
  (Core.pieces 59 isBlank value.bytes).filter (· ≠ [])

def Cookie.name (cookie : Cookie) : List UInt8 := cookie.takeWhile (· != 61)

/-- The session cookie, or one that passes for it. -/
def Cookie.IsSession (cookie : Cookie) : Prop := cookie.name = sessionCookie.bytes

instance (cookie : Cookie) : Decidable cookie.IsSession :=
  inferInstanceAs (Decidable (_ = _))

/-- The cookies of every `Cookie` header, in order. -/
def cookies (headers : HeaderMap) : List Cookie :=
  (headers.getAll cookieHeader).flatMap cookiesOf

/-- Those that are not the session cookie. -/
def others (cookies : List Cookie) : List Cookie := cookies.filter fun cookie => ¬ cookie.IsSession

/-- What stripping is for: nothing the gateway alone may say is left, and every
other cookie is. -/
structure Stripped (auth : SiteAuth) (headers after : HeaderMap) : Prop where
  session : ∀ cookie ∈ cookies after, ¬ cookie.IsSession
  user : after.getAll auth.userHeader = []
  groups : after.getAll auth.groupsHeader = []
  others : others (cookies after) = others (cookies headers)

/-- A cookie as `strip_cookie` reads it. -/
def Cookie.read (cookie : Cookie) : Text := (Text.fromUtf8Lossy cookie).trim

/-- One of a header's cookies reads as the session cookie. -/
def ReadsSession (value : HeaderValue) : Prop :=
  ∃ cookie ∈ cookiesOf value, nameOf cookie.read = sessionCookie

instance (value : HeaderValue) : Decidable (ReadsSession value) :=
  inferInstanceAs (Decidable (∃ cookie ∈ cookiesOf value, _))

/-- The condition under which rewriting the first `Cookie` header is enough. -/
def Rewritable (first : HeaderValue) (rest : List HeaderValue) : Prop :=
  if ReadsSession first then
    (∀ cookie ∈ rest.flatMap cookiesOf, cookie.IsSession) ∧
      ∀ cookie ∈ cookiesOf first, ¬ cookie.IsSession → cookie.read.bytes = cookie
  else ∀ cookie ∈ rest.flatMap cookiesOf, ¬ cookie.IsSession

end Cookies

section Reading

theorem ascii_of_isBlank {space : List UInt8} (hspace : ∀ byte ∈ space, isBlank byte) :
    (∀ byte ∈ space, byte < 0x80) ∧ ∀ c ∈ Text.ascii space, Text.isWhitespace c := by
  have hblank : ∀ byte, isBlank byte → byte = 32 ∨ byte = 9 := by simp [isBlank]
  constructor
  · intro byte hbyte
    rcases hblank byte (hspace byte hbyte) with rfl | rfl <;> decide
  · intro c hc
    obtain ⟨byte, hbyte, rfl⟩ := List.mem_map.mp hc
    rcases hblank byte (hspace byte hbyte) with rfl | rfl <;> decide

/-- Blanks around a cookie's bytes are trimmed with the text. -/
theorem read_trim (bytes : List UInt8) :
    Cookie.read (Core.trim isBlank bytes) = Cookie.read bytes := by
  obtain ⟨before, after, hbytes, hbefore, hafter⟩ := Core.exists_append_trim isBlank bytes
  obtain ⟨hbefore, hspace⟩ := ascii_of_isBlank hbefore
  obtain ⟨hafter, hspace'⟩ := ascii_of_isBlank hafter
  conv_rhs => rw [hbytes]
  rw [Cookie.read, Cookie.read, List.append_assoc, Text.fromUtf8Lossy_ascii_append hbefore,
    Text.fromUtf8Lossy_append_ascii hafter, Text.trim_eq, Core.trim_append_left hspace,
    Core.trim_append_right hspace']

/-- The pairs of a header's text are its cookies, read. -/
theorem pieces_fromUtf8Lossy (bytes : List UInt8) :
    Text.pieces ';' (Text.fromUtf8Lossy bytes) =
      (Core.pieces 59 isBlank bytes).map Cookie.read := by
  have hsplit := Text.splitOn_fromUtf8Lossy (c := ';') (by decide) bytes
  rw [Text.pieces, hsplit, Core.pieces, List.map_map, List.map_map]
  exact List.map_congr_left fun piece _ => (read_trim piece).symm

theorem read_nil : Cookie.read [] = [] := by decide

/-- Those of them that are not empty. -/
theorem filter_pieces (value : HeaderValue) :
    (Text.pieces ';' (Text.fromUtf8Lossy value.bytes)).filter (· ≠ []) =
      ((cookiesOf value).filter (·.read ≠ [])).map Cookie.read := by
  rw [pieces_fromUtf8Lossy, cookiesOf, List.filter_map, List.filter_filter]
  congr 1
  refine List.filter_congr fun cookie _ => ?_
  by_cases hnil : cookie = []
  · subst hnil
    simp [read_nil]
  · simp [hnil]

theorem nameOf_eq (pair : Text) : nameOf pair = pair.takeWhile (· != '=') := by
  rw [nameOf, Text.splitOnce]
  split
  · rename_i hnil
    rw [Option.map_none, Option.getD_none, List.takeWhile_eq_self_iff.mpr]
    exact List.dropWhile_eq_nil_iff.mp hnil
  · rfl

/-- The list up to a separator is all of it, or the separator follows. -/
theorem takeWhile_ne_eq_iff {α : Type} [DecidableEq α] {separator : α} {list head : List α}
    (hhead : separator ∉ head) :
    list.takeWhile (· != separator) = head ↔
      ∃ rest, list = head ++ rest ∧ (rest = [] ∨ rest.head? = some separator) := by
  constructor
  · rintro rfl
    refine ⟨list.dropWhile (· != separator), (List.takeWhile_append_dropWhile).symm, ?_⟩
    cases hrest : list.dropWhile (· != separator) with
    | nil => exact Or.inl rfl
    | cons a rest =>
        have hnot := List.head_dropWhile_not (· != separator) (l := list) (by simp [hrest])
        exact Or.inr (by simpa [hrest] using hnot)
  · have hall : ∀ a ∈ head, (a != separator) = true := by
      intro a ha
      rw [bne_iff_ne]
      rintro rfl
      exact hhead ha
    rintro ⟨rest, rfl, rfl | hrest⟩
    · rw [List.append_nil, List.takeWhile_eq_self_iff]
      exact hall
    · obtain ⟨rest, rfl⟩ := List.head?_eq_some_iff.mp hrest
      rw [List.takeWhile_append_of_pos hall, List.takeWhile_cons_of_neg (by simp),
        List.append_nil]

theorem nameOf_eq_session_iff (pair : Text) :
    nameOf pair = sessionCookie ↔
      ∃ rest, pair = sessionCookie ++ rest ∧ (rest = [] ∨ rest.head? = some '=') := by
  rw [nameOf_eq]
  exact takeWhile_ne_eq_iff (by decide)

theorem isSession_iff (cookie : Cookie) :
    cookie.IsSession ↔
      ∃ rest, cookie = sessionCookie.bytes ++ rest ∧ (rest = [] ∨ rest.head? = some 61) :=
  takeWhile_ne_eq_iff (by decide)

/-- Trimming takes nothing away before the `=`. -/
theorem session_append_of_trim (value : Text) :
    ∃ rest, Text.trim (sessionCookie ++ '=' :: value) = sessionCookie ++ rest ∧
      (rest = [] ∨ rest.head? = some '=') := by
  obtain ⟨before, after, htext, hbefore, hafter⟩ :=
    Core.exists_append_trim Text.isWhitespace (sessionCookie ++ '=' :: value)
  rw [Text.trim_eq]
  have hbefore : before = [] := by
    cases before with
    | nil => rfl
    | cons c rest =>
        have hc : 'e' = c := (List.cons.inj htext).1
        exact absurd (hbefore c List.mem_cons_self) (hc ▸ by decide)
  have hequals : '=' ∉ after := Core.not_mem_of_blank (by decide) hafter
  rw [hbefore, List.nil_append] at htext
  rcases List.append_eq_append_iff.mp htext with ⟨middle, htrim, hmiddle⟩ | ⟨middle, -, hmiddle⟩
  · refine ⟨middle, htrim, ?_⟩
    cases middle with
    | nil => exact Or.inl rfl
    | cons c rest => exact Or.inr (congrArg some (List.cons.inj hmiddle).1.symm)
  · exact absurd (hmiddle ▸ by simp) hequals

/-- The session cookie is read as such. -/
theorem nameOf_read_of_isSession {cookie : Cookie} (hsession : cookie.IsSession) :
    nameOf cookie.read = sessionCookie := by
  have hall : sessionCookie.bytes.all (· < 0x80) = true := by decide
  have hascii : ∀ byte ∈ sessionCookie.bytes, byte < 0x80 := by simpa using hall
  have htext : Text.ascii sessionCookie.bytes = sessionCookie := by decide
  obtain ⟨rest, rfl, hrest⟩ := (isSession_iff cookie).mp hsession
  rw [Cookie.read, Text.fromUtf8Lossy_ascii_append hascii, htext]
  rcases hrest with rfl | hrest
  · decide
  · obtain ⟨rest, rfl⟩ := List.head?_eq_some_iff.mp hrest
    rw [Text.fromUtf8Lossy_cons_of_lt (by decide), nameOf_eq_session_iff]
    exact session_append_of_trim (Text.fromUtf8Lossy rest)

/-- A text that reads as the session cookie is it, byte for byte. -/
theorem isSession_bytes {pair : Text} (hpair : nameOf pair = sessionCookie) :
    Cookie.IsSession pair.bytes := by
  obtain ⟨rest, rfl, hrest⟩ := (nameOf_eq_session_iff pair).mp hpair
  refine (isSession_iff _).mpr ⟨rest.bytes, Text.bytes_append _ _, ?_⟩
  rcases hrest with rfl | hrest
  · exact Or.inl rfl
  · obtain ⟨rest, rfl⟩ := List.head?_eq_some_iff.mp hrest
    exact Or.inr rfl

end Reading

section Rewriting

variable {first : HeaderValue} {rest : List HeaderValue} {headers : HeaderMap}

/-- The cookies of the first header that are written back. -/
def kept (first : HeaderValue) : List Cookie :=
  ((cookiesOf first).filter (·.read ≠ [])).filter fun cookie => nameOf cookie.read ≠ sessionCookie

/-- What is written back. -/
def rewritten (first : HeaderValue) : List UInt8 :=
  (Text.join "; ".toList ((kept first).map Cookie.read)).bytes

theorem mem_kept {cookie : Cookie} :
    cookie ∈ kept first ↔
      cookie ∈ cookiesOf first ∧ cookie.read ≠ [] ∧ nameOf cookie.read ≠ sessionCookie := by
  simp only [kept, List.mem_filter, decide_eq_true_eq, and_assoc]

theorem kept_sublist (first : HeaderValue) : (kept first).Sublist (others (cookiesOf first)) := by
  rw [kept, List.filter_filter, others]
  refine List.monotone_filter_right _ fun cookie hcookie => ?_
  simp only [decide_eq_true_eq, Bool.and_eq_true] at hcookie ⊢
  exact fun hsession => hcookie.1 (nameOf_read_of_isSession hsession)

theorem filter_pairs (first : HeaderValue) :
    (Text.pieces ';' (Text.fromUtf8Lossy first.bytes)).filter
        (fun pair => pair ≠ [] ∧ nameOf pair ≠ sessionCookie) = (kept first).map Cookie.read := by
  have hand : (fun pair : Text => decide (pair ≠ [] ∧ nameOf pair ≠ sessionCookie)) =
      fun pair => decide (nameOf pair ≠ sessionCookie) && decide (pair ≠ []) := by
    funext pair
    rw [Bool.decide_and, Bool.and_comm]
  rw [hand, ← List.filter_filter, filter_pieces, List.filter_map, kept]
  rfl

theorem length_kept_iff (first : HeaderValue) :
    (kept first).length = ((cookiesOf first).filter (·.read ≠ [])).length ↔
      ¬ ReadsSession first := by
  rw [kept, List.length_filter_eq_length_iff]
  constructor
  · rintro hall ⟨cookie, hmem, hname⟩
    have hne : cookie.read ≠ [] := by
      intro hnil
      rw [hnil] at hname
      exact absurd hname (by decide)
    simpa [hname] using hall cookie (by simpa using ⟨hmem, hne⟩)
  · intro hnone cookie hcookie
    have hname : nameOf cookie.read ≠ sessionCookie := fun hname =>
      hnone ⟨cookie, List.mem_of_mem_filter hcookie, hname⟩
    simpa using hname

theorem stripCookie_eq (hall : headers.getAll cookieHeader = first :: rest) :
    stripCookie headers sessionCookie =
      if (kept first).length = ((cookiesOf first).filter (·.read ≠ [])).length then headers
      else
        match HeaderValue.fromBytes (rewritten first) with
        | some value =>
            if (kept first).map Cookie.read ≠ [] then headers.insert cookieHeader value
            else headers.remove cookieHeader
        | none => headers.remove cookieHeader := by
  have hget : headers.get cookieHeader = some first := by rw [HeaderMap.get, hall, List.head?_cons]
  rw [stripCookie, hget]
  simp only [filter_pairs, filter_pieces, List.length_map]
  rfl

theorem isWhitespace_of_isBlank {c : Char} {byte : UInt8} (hmem : byte ∈ String.utf8EncodeChar c)
    (hblank : isBlank byte) : Text.isWhitespace c := by
  obtain ⟨hascii, hspace⟩ := ascii_of_isBlank (List.forall_mem_singleton.mpr hblank)
  have hc := Text.utf8EncodeChar_of_mem hmem (hascii byte (List.mem_singleton_self byte))
  exact hspace c (by simp [hc, Text.ascii])

/-- The bytes of a trimmed text are trimmed. -/
theorem trim_bytes (text : Text) : Core.trim isBlank text.trim.bytes = text.trim.bytes := by
  refine Core.trim_eq_self (fun byte hbyte => ?_) fun byte hbyte => ?_
  · cases htrim : text.trim with
    | nil => rw [htrim] at hbyte; contradiction
    | cons c rest =>
        have hc : Text.isWhitespace c = false :=
          Core.head?_trim (by rw [← Text.trim_eq, htrim]; rfl)
        rw [htrim, Text.bytes_cons, List.head?_append_of_ne_nil _ String.utf8EncodeChar_ne_nil] at hbyte
        by_contra hblank
        rw [isWhitespace_of_isBlank (List.mem_of_mem_head? hbyte) (by simpa using hblank)] at hc
        contradiction
  · cases htrim : text.trim using List.reverseRecOn with
    | nil => rw [htrim] at hbyte; contradiction
    | append_singleton init c =>
        have hc : Text.isWhitespace c = false :=
          Core.getLast?_trim (by rw [← Text.trim_eq, htrim]; simp)
        have hencode : Text.bytes [c] = String.utf8EncodeChar c := List.append_nil _
        rw [htrim, Text.bytes_append, hencode,
          List.getLast?_append_of_ne_nil _ String.utf8EncodeChar_ne_nil] at hbyte
        by_contra hblank
        rw [isWhitespace_of_isBlank (List.mem_of_getLast? hbyte) (by simpa using hblank)] at hc
        contradiction

/-- A cookie that is written back has no separator in it and no blanks around it. -/
theorem trimmed_of_mem_kept {cookie : Cookie} (hcookie : cookie ∈ kept first) :
    59 ∉ cookie.read.bytes ∧ Core.trim isBlank cookie.read.bytes = cookie.read.bytes := by
  refine ⟨fun hmem => ?_, trim_bytes _⟩
  have hsemicolon : ';' ∈ cookie.read := Text.mem_of_mem_bytes hmem (by decide)
  obtain ⟨before, after, htrim, -, -⟩ :=
    Core.exists_append_trim Text.isWhitespace (Text.fromUtf8Lossy cookie)
  have hread : ';' ∈ Text.fromUtf8Lossy cookie := by
    rw [htrim]
    exact List.mem_append_left _ (List.mem_append_right _ hsemicolon)
  have hbyte := Text.mem_of_mem_fromUtf8Lossy (by decide) hread
  exact (Core.mem_of_mem_pieces (List.mem_of_mem_filter (mem_kept.mp hcookie).1) hbyte).2 rfl

/-- The cookies of the header that is written back. -/
theorem pieces_rewritten (hkept : kept first ≠ []) :
    (Core.pieces 59 isBlank (rewritten first)).filter (· ≠ []) =
      (kept first).map (·.read.bytes) := by
  have hspace : Text.bytes "; ".toList = 59 :: [32] := by decide
  have hparts : ∀ part ∈ (kept first).map (·.read.bytes),
      59 ∉ part ∧ Core.trim isBlank part = part := by
    intro part hpart
    obtain ⟨cookie, hcookie, rfl⟩ := List.mem_map.mp hpart
    exact trimmed_of_mem_kept hcookie
  have hpieces : Core.pieces 59 isBlank
      ((59 :: [32]).intercalate ((kept first).map (·.read.bytes))) =
        (kept first).map (·.read.bytes) :=
    Core.pieces_intercalate (by decide) (by simp [isBlank]) (by simpa using hkept) hparts
  rw [rewritten, Text.bytes_join, hspace, List.map_map]
  refine (congrArg _ hpieces).trans (List.filter_eq_self.mpr fun part hpart => ?_)
  obtain ⟨cookie, hcookie, rfl⟩ := List.mem_map.mp hpart
  have hne := (mem_kept.mp hcookie).2.1
  simpa [Text.bytes_eq_nil] using hne

theorem others_sublist (cookies : List Cookie) : (others cookies).Sublist cookies :=
  List.filter_sublist

theorem others_append (left right : List Cookie) :
    others (left ++ right) = others left ++ others right := List.filter_append ..

theorem others_eq_self_iff {cookies : List Cookie} :
    others cookies = cookies ↔ ∀ cookie ∈ cookies, ¬ cookie.IsSession := by
  simp [others, List.filter_eq_self]

theorem others_eq_nil_iff {cookies : List Cookie} :
    others cookies = [] ↔ ∀ cookie ∈ cookies, cookie.IsSession := by
  simp [others, List.filter_eq_nil_iff]

/-- Every other cookie of the first header that is text as it stands is kept. -/
theorem kept_eq_others (hclean : ∀ cookie ∈ cookiesOf first, ¬ cookie.IsSession →
    cookie.read.bytes = cookie) : kept first = others (cookiesOf first) := by
  refine (kept_sublist first).eq_of_length_le ?_
  rw [kept, List.filter_filter, others, ← List.countP_eq_length_filter,
    ← List.countP_eq_length_filter]
  refine List.countP_mono_left fun cookie hcookie hother => ?_
  have hsession : ¬ cookie.IsSession := by simpa using hother
  have hbytes := hclean cookie hcookie hsession
  have hname : nameOf cookie.read ≠ sessionCookie := by
    intro hname
    exact hsession (hbytes ▸ isSession_bytes hname)
  have hne : cookie.read ≠ [] := by
    intro hnil
    rw [hnil] at hbytes
    have hcookie' : cookie ≠ [] := by simpa using List.of_mem_filter hcookie
    exact hcookie' hbytes.symm
  simp [hname, hne]

end Rewriting

section Stripping

variable {headers : HeaderMap} {first : HeaderValue} {rest : List HeaderValue}

theorem cookies_of_getAll (hall : headers.getAll cookieHeader = first :: rest) :
    cookies headers = cookiesOf first ++ rest.flatMap cookiesOf := by
  rw [cookies, hall, List.flatMap_cons]

theorem cookies_remove (headers : HeaderMap) : cookies (headers.remove cookieHeader) = [] := by
  rw [cookies, HeaderMap.getAll_remove_self, List.flatMap_nil]

theorem cookies_insert (headers : HeaderMap) (value : HeaderValue) :
    cookies (headers.insert cookieHeader value) = cookiesOf value := by
  rw [cookies, HeaderMap.getAll_insert_self, List.flatMap_cons, List.flatMap_nil, List.append_nil]

/-- The cookies left are none, or those written back. -/
theorem cookies_stripCookie (hall : headers.getAll cookieHeader = first :: rest)
    (hsession : ReadsSession first) :
    cookies (stripCookie headers sessionCookie) = [] ∨
      kept first ≠ [] ∧
        cookies (stripCookie headers sessionCookie) = (kept first).map (·.read.bytes) := by
  rw [stripCookie_eq hall, if_neg (fun h => (length_kept_iff first).mp h hsession)]
  split
  · rename_i value hvalue
    by_cases hkept : kept first = []
    · rw [if_neg (by simp [hkept])]
      exact Or.inl (cookies_remove headers)
    · rw [if_pos (by simpa using hkept), cookies_insert, cookiesOf,
        HeaderValue.bytes_of_fromBytes hvalue]
      exact Or.inr ⟨hkept, pieces_rewritten hkept⟩
  · exact Or.inl (cookies_remove headers)

/-- What stripping the cookie is for, the identity headers aside. -/
def CookieStripped (headers after : HeaderMap) : Prop :=
  (∀ cookie ∈ cookies after, ¬ cookie.IsSession) ∧
    others (cookies after) = others (cookies headers)

theorem legal_rewritten (hclean : (kept first).map (·.read.bytes) = kept first) :
    ∀ byte ∈ rewritten first, isValueByte byte := by
  intro byte hbyte
  rw [rewritten, Text.bytes_join, List.map_map] at hbyte
  rcases Core.mem_intercalate hbyte with hspace | ⟨part, hpart, hmem⟩
  · have hspaces : (Text.bytes "; ".toList).all isValueByte = true := by decide
    exact List.all_eq_true.mp hspaces byte hspace
  · have hkept : part ∈ kept first := hclean ▸ hpart
    exact first.legal byte
      (Core.mem_of_mem_pieces (List.mem_of_mem_filter (mem_kept.mp hkept).1) hmem).1

theorem map_bytes_eq_self_iff (cookies : List Cookie) :
    cookies.map (·.read.bytes) = cookies ↔ ∀ cookie ∈ cookies, cookie.read.bytes = cookie := by
  conv_lhs => rhs; rw [← List.map_id cookies]
  exact List.map_inj_left

/-- The first header is written back with all the other cookies of all headers only
if they all stand in it, as they are written. -/
theorem rewritable_of_cookieStripped (hall : headers.getAll cookieHeader = first :: rest)
    (hsession : ReadsSession first)
    (hstripped : CookieStripped headers (stripCookie headers sessionCookie)) :
    Rewritable first rest := by
  obtain ⟨hnone, hothers⟩ := hstripped
  rw [cookies_of_getAll hall, others_append] at hothers
  rw [Rewritable, if_pos hsession]
  rcases cookies_stripCookie hall hsession with hnil | ⟨-, hkept⟩
  · rw [hnil, others, List.filter_nil] at hothers
    obtain ⟨hfirst, hrest⟩ := List.append_eq_nil_iff.mp hothers.symm
    exact ⟨others_eq_nil_iff.mp hrest,
      fun cookie hcookie hother => absurd (others_eq_nil_iff.mp hfirst cookie hcookie) hother⟩
  · rw [others_eq_self_iff.mpr hnone, hkept] at hothers
    have hsublist := kept_sublist first
    have hlength := congrArg List.length hothers
    rw [List.length_map, List.length_append] at hlength
    have hrest : others (rest.flatMap cookiesOf) = [] := by
      have := hsublist.length_le
      exact List.length_eq_zero_iff.mp (by omega)
    have hsame : kept first = others (cookiesOf first) := by
      refine hsublist.eq_of_length ?_
      rw [hrest] at hlength
      exact hlength
    rw [hrest, List.append_nil, hsame, map_bytes_eq_self_iff] at hothers
    refine ⟨others_eq_nil_iff.mp hrest, fun cookie hcookie hother => hothers cookie ?_⟩
    exact List.mem_filter.mpr ⟨hcookie, by simpa using hother⟩

theorem cookieStripped_of_rewritable (hall : headers.getAll cookieHeader = first :: rest)
    (hsession : ReadsSession first) (hrewritable : Rewritable first rest) :
    CookieStripped headers (stripCookie headers sessionCookie) := by
  rw [Rewritable, if_pos hsession] at hrewritable
  obtain ⟨hrest, hclean⟩ := hrewritable
  have hkept := kept_eq_others hclean
  have hothers : ∀ cookie ∈ others (cookiesOf first), ¬ cookie.IsSession :=
    fun cookie hcookie => by simpa using List.of_mem_filter hcookie
  have hbytes : (kept first).map (·.read.bytes) = kept first := by
    rw [map_bytes_eq_self_iff, hkept]
    exact fun cookie hcookie =>
      hclean cookie ((others_sublist _).subset hcookie) (hothers cookie hcookie)
  have hafter : cookies (stripCookie headers sessionCookie) = others (cookiesOf first) := by
    rw [stripCookie_eq hall, if_neg (fun h => (length_kept_iff first).mp h hsession),
      HeaderValue.fromBytes_eq_some (legal_rewritten hbytes)]
    by_cases hnil : kept first = []
    · simp only [hnil, List.map_nil, ne_eq, not_true, if_false]
      rw [cookies_remove, ← hkept, hnil]
    · simp only [ne_eq, List.map_eq_nil_iff, hnil, not_false_eq_true, if_true]
      rw [cookies_insert, cookiesOf, pieces_rewritten hnil, hbytes, hkept]
  rw [CookieStripped, hafter, cookies_of_getAll hall, others_append, others_eq_nil_iff.mpr hrest,
    List.append_nil, others_eq_self_iff.mpr hothers]
  exact ⟨hothers, rfl⟩

theorem cookieStripped_iff (hall : headers.getAll cookieHeader = first :: rest) :
    CookieStripped headers (stripCookie headers sessionCookie) ↔ Rewritable first rest := by
  by_cases hsession : ReadsSession first
  · exact ⟨rewritable_of_cookieStripped hall hsession,
      cookieStripped_of_rewritable hall hsession⟩
  · rw [Rewritable, if_neg hsession, stripCookie_eq hall,
      if_pos ((length_kept_iff first).mpr hsession), CookieStripped, cookies_of_getAll hall,
      and_iff_left rfl, List.forall_mem_append]
    refine and_iff_right fun cookie hcookie hgate => hsession ?_
    exact ⟨cookie, hcookie, nameOf_read_of_isSession hgate⟩

theorem stripCookie_of_nil (hnil : headers.getAll cookieHeader = []) :
    stripCookie headers sessionCookie = headers := by
  rw [stripCookie, HeaderMap.get, hnil, List.head?_nil]

/-- Stripping the cookie changes no other header. -/
theorem getAll_stripCookie (headers : HeaderMap) {other : Text} (hne : other ≠ cookieHeader) :
    (stripCookie headers sessionCookie).getAll other = headers.getAll other := by
  cases hall : headers.getAll cookieHeader with
  | nil => rw [stripCookie_of_nil hall]
  | cons first rest =>
      rw [stripCookie_eq hall]
      split
      · rfl
      · split
        · split
          · exact HeaderMap.getAll_insert_of_ne headers hne _
          · exact HeaderMap.getAll_remove_of_ne headers hne
        · exact HeaderMap.getAll_remove_of_ne headers hne

/-- A header that was taken off is gone after the cookie is taken out. -/
theorem getAll_stripCookie_eq_nil (headers : HeaderMap) {other : Text}
    (hnil : headers.getAll other = []) : (stripCookie headers sessionCookie).getAll other = [] := by
  by_cases hcookie : other = cookieHeader
  · rw [stripCookie_of_nil (hcookie ▸ hnil), hnil]
  · rw [getAll_stripCookie headers hcookie, hnil]

end Stripping

section Strip

variable (auth : SiteAuth) (headers : HeaderMap)

/-- A request's headers without the identity headers. -/
def anonymous : HeaderMap := (headers.remove auth.userHeader).remove auth.groupsHeader

theorem getAll_anonymous {name : Text} (huser : name ≠ auth.userHeader)
    (hgroups : name ≠ auth.groupsHeader) :
    (anonymous auth headers).getAll name = headers.getAll name := by
  rw [anonymous, HeaderMap.getAll_remove_of_ne _ hgroups, HeaderMap.getAll_remove_of_ne _ huser]

theorem getAll_anonymous_eq_nil {name : Text}
    (hname : name = auth.userHeader ∨ name = auth.groupsHeader) :
    (anonymous auth headers).getAll name = [] := by
  by_cases hgroups : name = auth.groupsHeader
  · rw [anonymous, hgroups, HeaderMap.getAll_remove_self]
  · rw [anonymous, HeaderMap.getAll_remove_of_ne _ hgroups, hname.resolve_right hgroups,
      HeaderMap.getAll_remove_self]

theorem stripped_iff :
    Stripped auth headers (auth.strip headers) ↔
      (∀ cookie ∈ cookies (auth.strip headers), ¬ cookie.IsSession) ∧
        others (cookies (auth.strip headers)) = others (cookies headers) := by
  constructor
  · exact fun hstripped => ⟨hstripped.session, hstripped.others⟩
  · rintro ⟨hsession, hothers⟩
    exact ⟨hsession,
      getAll_stripCookie_eq_nil _ (getAll_anonymous_eq_nil auth headers (Or.inl rfl)),
      getAll_stripCookie_eq_nil _ (getAll_anonymous_eq_nil auth headers (Or.inr rfl)), hothers⟩

/-- Stripping does what it is for exactly where all the other cookies stand in the
first `Cookie` header as text that is written as it is read, or the session cookie
stands in none. -/
theorem stripped_strip_iff :
    Stripped auth headers (auth.strip headers) ↔
      if cookieHeader = auth.userHeader ∨ cookieHeader = auth.groupsHeader then
        ∀ cookie ∈ cookies headers, cookie.IsSession
      else ∀ first rest, headers.getAll cookieHeader = first :: rest → Rewritable first rest := by
  rw [stripped_iff]
  split
  · rename_i hidentity
    have hnil := getAll_anonymous_eq_nil auth headers hidentity
    have hgone : (auth.strip headers).getAll cookieHeader = [] :=
      getAll_stripCookie_eq_nil _ hnil
    have hafter : cookies (auth.strip headers) = [] := by
      rw [cookies, hgone, List.flatMap_nil]
    rw [hafter, ← others_eq_nil_iff]
    exact ⟨fun h => h.2.symm, fun h => ⟨fun _ hmem => absurd hmem List.not_mem_nil, h.symm⟩⟩
  · rename_i hidentity
    obtain ⟨huser, hgroups⟩ := not_or.mp hidentity
    have hsame := getAll_anonymous auth headers huser hgroups
    have hcookies : cookies headers = cookies (anonymous auth headers) := by
      rw [cookies, cookies, hsame]
    rw [hcookies, ← hsame]
    cases hall : (anonymous auth headers).getAll cookieHeader with
    | nil =>
        have hafter : auth.strip headers = anonymous auth headers := stripCookie_of_nil hall
        rw [hafter, cookies, hall]
        simp
    | cons first rest =>
        refine (cookieStripped_iff hall).trans ⟨?_, fun h => h first rest rfl⟩
        rintro hrewritable _ _ heq
        obtain ⟨rfl, rfl⟩ := List.cons.inj heq
        exact hrewritable

/-- A visitor whose browser sends its cookies in two headers. -/
def twoCookieHeaders : HeaderMap where
  getAll name :=
    if name = cookieHeader then
      (["theme=dark".toList, "easywaf_gate=forged".toList].map Text.bytes).filterMap
        HeaderValue.fromBytes
    else []

theorem second_cookie_header_is_not_stripped :
    ¬ Stripped (.asking "/".toList []) twoCookieHeaders
      ((SiteAuth.asking "/".toList []).strip twoCookieHeaders) := by
  intro hstripped
  have hleft : Text.bytes "easywaf_gate=forged".toList ∈
      cookies ((SiteAuth.asking "/".toList []).strip twoCookieHeaders) := by decide +kernel
  exact hstripped.session _ hleft (by decide +kernel)

end Strip

end EasyWaf.Gateway
