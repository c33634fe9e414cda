import EasyWaf.Forwarded

/-!
# What a client can write into its address

A trusted proxy passes on what the client wrote and adds what it saw: at the end
of the client's last line, or on a line of its own.  Nothing the client writes on
its own lines is reached while the proxies' entries name an address that is not a
proxy's.  A byte outside ASCII on the line a proxy extends takes the proxy's entry
with it.
-/

namespace EasyWaf.Forwarded

open Http Net

/-- The addresses one line names; a line that is not text names none. -/
def lineHops (line : HeaderValue) : List IpAddr :=
  match line.toStr with
  | some text => hops text
  | none => []

/-- The last hop that is no proxy, else the first, else the peer. -/
def choose (trusted : List Cidr) (peer : IpAddr) (found : List IpAddr) : IpAddr :=
  (found.reverse.find? fun ip => !trusts trusted ip).getD (found.headD peer)

section Hops

theorem hops_eq (raw : Text) : hops raw = (Text.pieces ',' raw).filterMap normalise := by
  simp [hops, Text.pieces, List.filterMap_map]

theorem hops_append_cons (left right : Text) :
    hops (left ++ ',' :: right) = hops left ++ hops right := by
  simp only [hops_eq, Text.pieces_append_cons, List.filterMap_append]

theorem isWhitespace_comma : Text.isWhitespace ',' = false := by decide

theorem hops_append_left {space : Text} (hspace : ∀ c ∈ space, Text.isWhitespace c) (raw : Text) :
    hops (space ++ raw) = hops raw := by
  simp only [hops_eq, Text.pieces_append_left isWhitespace_comma hspace]

theorem hops_trim (raw : Text) : hops raw.trim = hops raw := by
  simp only [hops_eq, Text.pieces_trim isWhitespace_comma]

theorem hops_nil : hops [] = [] := by decide

/-- Two lists of entries, one after the other. -/
theorem hops_separator (left right : Text) :
    hops (left ++ ", ".toList ++ right) = hops left ++ hops right := by
  have hsplit : left ++ ", ".toList ++ right = left ++ ',' :: ([' '] ++ right) := by simp
  rw [hsplit, hops_append_cons, hops_append_left (List.forall_mem_singleton.mpr rfl)]

theorem hops_join (lines : List Text) :
    hops (Text.join ", ".toList lines) = lines.flatMap hops := by
  induction lines with
  | nil => exact hops_nil
  | cons line lines ih =>
      cases lines with
      | nil => simp [Text.join]
      | cons next rest =>
          have hjoin : Text.join ", ".toList (line :: next :: rest) =
              line ++ ", ".toList ++ Text.join ", ".toList (next :: rest) := by
            simp [Text.join, List.intercalate_cons_cons]
          rw [hjoin, hops_separator, ih]
          rfl

/-- Trimming lines and leaving out the empty ones loses no hop. -/
theorem flatMap_hops_lines (lines : List Text) :
    ((lines.map Text.trim).filter (· ≠ [])).flatMap hops = lines.flatMap hops := by
  induction lines with
  | nil => rfl
  | cons line lines ih =>
      by_cases hnil : line.trim = []
      · have hnone : hops line = [] := by rw [← hops_trim, hnil, hops_nil]
        simpa [hnil, hnone] using ih
      · have hfilter : ((line :: lines).map Text.trim).filter (· ≠ []) =
            line.trim :: (lines.map Text.trim).filter (· ≠ []) := by simp [hnil]
        rw [hfilter, List.flatMap_cons, List.flatMap_cons, hops_trim, ih]

theorem flatMap_lineHops (headers : List HeaderValue) :
    headers.flatMap lineHops = (headers.filterMap HeaderValue.toStr).flatMap hops := by
  induction headers with
  | nil => rfl
  | cons line headers ih =>
      cases hline : line.toStr with
      | none => simpa [lineHops, hline] using ih
      | some text => simp [lineHops, hline, ih]

/-- For a trusted peer the address is chosen among all hops of all lines. -/
theorem resolve_of_trusts {peer : IpAddr} {trusted : List Cidr}
    (hpeer : trusts trusted peer = true) (headers : List HeaderValue) :
    resolve peer headers trusted = choose trusted peer (headers.flatMap lineHops) := by
  have hsome : trusted ≠ [] := by
    rintro rfl
    simp [trusts] at hpeer
  rw [flatMap_lineHops, ← flatMap_hops_lines]
  simp only [resolve, hsome, hpeer, Bool.true_eq_false, or_self, if_false, forwardedFor]
  split
  · next hnone =>
      split at hnone
      · next hlines =>
          rw [hlines]
          rfl
      · simp at hnone
  · next raw hraw =>
      split at hraw
      · simp at hraw
      · obtain rfl := Option.some.inj hraw
        rw [← hops_join]
        cases hops (Text.join ", ".toList _) <;> rfl

end Hops

section Choose

variable {trusted : List Cidr} {peer : IpAddr}

/-- Where the later hops name one that is no proxy, the earlier ones do not
matter. -/
theorem choose_append {later : List IpAddr} (earlier : List IpAddr)
    (hlater : later.any fun ip => !trusts trusted ip) :
    choose trusted peer (earlier ++ later) = choose trusted peer later := by
  have hfound : (later.reverse.find? fun ip => !trusts trusted ip).isSome := by
    simpa [List.find?_isSome] using hlater
  obtain ⟨ip, hip⟩ := Option.isSome_iff_exists.mp hfound
  simp only [choose, List.reverse_append, List.find?_append, hip, Option.some_or,
    Option.getD_some]

theorem trusts_choose_eq_false {found : List IpAddr}
    (hfound : found.any fun ip => !trusts trusted ip) :
    trusts trusted (choose trusted peer found) = false := by
  have hsome : (found.reverse.find? fun ip => !trusts trusted ip).isSome := by
    simpa [List.find?_isSome] using hfound
  obtain ⟨ip, hip⟩ := Option.isSome_iff_exists.mp hsome
  have huntrusted := List.find?_some hip
  simpa [choose, hip] using huntrusted

theorem trusts_choose {found : List IpAddr} (hpeer : trusts trusted peer = true)
    (hfound : (found.any fun ip => !trusts trusted ip) = false) :
    trusts trusted (choose trusted peer found) = true := by
  have hall : ∀ ip ∈ found, trusts trusted ip = true := by simpa using hfound
  have hnone : (found.reverse.find? fun ip => !trusts trusted ip) = none := by
    simpa [List.find?_eq_none] using hall
  cases found with
  | nil => exact hpeer
  | cons first rest =>
      rw [choose, hnone]
      exact hall first List.mem_cons_self

end Choose

/-- What the trusted proxies add: an entry at the end of a line the client may
have begun, then lines of their own.  They write text. -/
structure Suffix where
  first : HeaderValue
  own : List HeaderValue
  firstText : first.isText
  ownText : ∀ line ∈ own, line.isText

def separator : HeaderValue where
  bytes := [44, 32]
  legal := by simp [isValueByte]

/-- The line the first proxy ends, after what the client wrote there, if
anything. -/
def Suffix.ended (suffix : Suffix) : Option HeaderValue → HeaderValue
  | none => suffix.first
  | some opened => opened ++ separator ++ suffix.first

/-- The header as it arrives: lines of the client's own, the line it may have
begun, the proxies' lines. -/
def Suffix.after (suffix : Suffix) (lines : List HeaderValue) (opened : Option HeaderValue) :
    List HeaderValue :=
  lines ++ suffix.ended opened :: suffix.own

/-- A line names an address that is no proxy's. -/
def namesClient (trusted : List Cidr) (line : HeaderValue) : Bool :=
  (lineHops line).any fun ip => !trusts trusted ip

/-- What the client wrote on the proxy's line, if anything, is text. -/
def isReadable : Option HeaderValue → Bool
  | none => true
  | some opened => opened.isText

section Suffix

variable {trusted : List Cidr} {peer : IpAddr} {suffix : Suffix}

theorem lineHops_append {left right : HeaderValue} (hleft : left.isText) (hright : right.isText) :
    lineHops (left ++ separator ++ right) = lineHops left ++ lineHops right := by
  have htext : (left ++ separator ++ right).isText := by
    simp only [HeaderValue.isText_append, hleft, hright]
    decide
  have hbytes : (left ++ separator ++ right).bytes.map HeaderValue.charOf =
      left.bytes.map HeaderValue.charOf ++ ", ".toList ++ right.bytes.map HeaderValue.charOf := by
    simp [separator, HeaderValue.charOf]
  simp only [lineHops, HeaderValue.toStr_of_isText, htext, hleft, hright, hbytes,
    hops_separator]

theorem lineHops_ended_of_isReadable {opened : Option HeaderValue} (hopened : isReadable opened) :
    ∃ client, lineHops (suffix.ended opened) = client ++ lineHops suffix.first := by
  cases opened with
  | none => exact ⟨[], rfl⟩
  | some opened => exact ⟨_, lineHops_append hopened suffix.firstText⟩

theorem lineHops_ended_of_not_isReadable {opened : Option HeaderValue}
    (hopened : isReadable opened = false) : lineHops (suffix.ended opened) = [] := by
  cases opened with
  | none => simp [isReadable] at hopened
  | some opened =>
      have hopened : opened.isText = false := hopened
      have htext : (opened ++ separator ++ suffix.first).isText = false := by simp [hopened]
      simp [lineHops, Suffix.ended, HeaderValue.toStr_eq_none htext]

theorem flatMap_after (lines : List HeaderValue) (opened : Option HeaderValue) :
    (suffix.after lines opened).flatMap lineHops =
      lines.flatMap lineHops ++
        (lineHops (suffix.ended opened) ++ suffix.own.flatMap lineHops) := by
  simp [Suffix.after]

theorem any_own :
    ((suffix.own.flatMap lineHops).any fun ip => !trusts trusted ip) =
      suffix.own.any (namesClient trusted) := by
  rw [List.any_flatMap]
  rfl

/-- What is chosen when the client's bytes on the proxy's line are text, or the
proxies' own lines suffice. -/
theorem resolve_after (hpeer : trusts trusted peer = true)
    (hclient : namesClient trusted suffix.first ∨ suffix.own.any (namesClient trusted))
    {opened : Option HeaderValue}
    (hopened : suffix.own.any (namesClient trusted) ∨ isReadable opened)
    (lines : List HeaderValue) :
    resolve peer (suffix.after lines opened) trusted =
      choose trusted peer (lineHops suffix.first ++ suffix.own.flatMap lineHops) := by
  rw [resolve_of_trusts hpeer, flatMap_after]
  by_cases hown : suffix.own.any (namesClient trusted)
  · have hany := any_own.trans hown
    rw [← List.append_assoc, choose_append _ hany, choose_append _ hany]
  · obtain ⟨client, hended⟩ := lineHops_ended_of_isReadable (hopened.resolve_left hown)
    have hany : (lineHops suffix.first ++ suffix.own.flatMap lineHops).any
        fun ip => !trusts trusted ip := by
      have hfirst := hclient.resolve_right hown
      simp only [List.any_append, Bool.or_eq_true]
      exact .inl hfirst
    rw [hended, List.append_assoc, ← List.append_assoc, choose_append _ hany]

/-- A client whose bytes on the proxy's line are not text is judged by a proxy's
address, or by one it wrote itself. -/
theorem trusts_resolve_after (hpeer : trusts trusted peer = true)
    (hown : ¬ suffix.own.any (namesClient trusted)) {opened : Option HeaderValue}
    (hopened : ¬ isReadable opened) :
    trusts trusted (resolve peer (suffix.after [] opened) trusted) = true := by
  rw [resolve_of_trusts hpeer, flatMap_after,
    lineHops_ended_of_not_isReadable (by simpa using hopened)]
  refine trusts_choose hpeer ?_
  rw [List.flatMap_nil, List.nil_append, List.nil_append, any_own]
  simpa using hown

theorem trusts_resolve_after_first (hpeer : trusts trusted peer = true)
    (hfirst : namesClient trusted suffix.first) (opened : Option HeaderValue) :
    trusts trusted (resolve peer (suffix.after [suffix.first] opened) trusted) = false := by
  rw [resolve_of_trusts hpeer, flatMap_after]
  refine trusts_choose_eq_false ?_
  simp only [List.flatMap_singleton, List.any_append, Bool.or_eq_true]
  exact .inl hfirst

/-- An untrusted peer is itself.  Behind a trusted one, with an address that is
no proxy's among the proxies' entries, what the client writes on lines of its own
changes nothing exactly when a line wholly the proxies' names such an address or
the client's bytes on the line they end are text. -/
theorem resolve_ignores_client
    (hclient : namesClient trusted suffix.first ∨ suffix.own.any (namesClient trusted))
    (opened opened' : Option HeaderValue) :
    (trusts trusted peer = false → ∀ headers, resolve peer headers trusted = peer) ∧
    (trusts trusted peer = true →
      ((∀ lines lines', resolve peer (suffix.after lines opened) trusted =
          resolve peer (suffix.after lines' opened') trusted) ↔
        suffix.own.any (namesClient trusted) ∨ (isReadable opened ∧ isReadable opened'))) := by
  refine ⟨fun hpeer headers => by simp [resolve, hpeer], fun hpeer => ⟨fun hsame => ?_, ?_⟩⟩
  · by_contra hneither
    have hown : ¬ suffix.own.any (namesClient trusted) := fun hown => hneither (.inl hown)
    have hfirst := hclient.resolve_right hown
    by_cases hopened : isReadable opened
    · have hopened' : ¬ isReadable opened' := fun h => hneither (.inr ⟨hopened, h⟩)
      have htrusted := trusts_resolve_after hpeer hown hopened'
      rw [← hsame [suffix.first] [], trusts_resolve_after_first hpeer hfirst] at htrusted
      simp at htrusted
    · have htrusted := trusts_resolve_after hpeer hown hopened
      rw [hsame [] [suffix.first], trusts_resolve_after_first hpeer hfirst] at htrusted
      simp at htrusted
  · rintro hreads lines lines'
    rw [resolve_after hpeer hclient (hreads.imp_right And.left),
      resolve_after hpeer hclient (hreads.imp_right And.right)]

end Suffix

section Office

/-- A header line of ASCII characters. -/
def asciiBytes (text : Text) : List UInt8 := text.map fun c => UInt8.ofNat c.toNat

/-- The proxies are those of 10.0.0.0/8. -/
def office : List Cidr := [{ addr := .v4 0x0a000000#32, prefixLen := 8, prefix_le := by decide }]

def officeProxy : IpAddr := .v4 0x0a000001#32

/-- A visitor's address as the proxy writes it. -/
def visitorLine : HeaderValue where
  bytes := asciiBytes "203.0.113.7".toList
  legal := by decide +kernel

/-- An address the visitor makes up. -/
def forgedLine : HeaderValue where
  bytes := asciiBytes "198.51.100.1".toList
  legal := by decide +kernel

/-- A value of one byte outside ASCII. -/
def foreignLine : HeaderValue where
  bytes := [0xe9]
  legal := by decide +kernel

/-- The proxy ends the visitor's last line with the visitor's address. -/
def officeSuffix : Suffix where
  first := visitorLine
  own := []
  firstText := by decide +kernel
  ownText := by simp

/-- The visitor is judged by the forged address on a line of its own once a byte
outside ASCII stands on the line the proxy ends. -/
theorem resolve_follows_client :
    trusts office officeProxy = true ∧ namesClient office officeSuffix.first = true ∧
      resolve officeProxy (officeSuffix.after [] none) office = .v4 0xcb007107#32 ∧
      resolve officeProxy (officeSuffix.after [forgedLine] (some foreignLine)) office =
        .v4 0xc6336401#32 := by
  decide +kernel

/-- With text on the line the proxy ends, forged lines do nothing. -/
theorem resolve_ignores_client_of_office :
    resolve officeProxy (officeSuffix.after [forgedLine, foreignLine] (some forgedLine)) office =
      resolve officeProxy (officeSuffix.after [] none) office := by
  have hfirst : namesClient office officeSuffix.first = true := by decide +kernel
  have hpeer : trusts office officeProxy = true := by decide +kernel
  have hforged : isReadable (some forgedLine) = true := by decide +kernel
  exact ((resolve_ignores_client (.inl hfirst) (some forgedLine) none).2 hpeer).mpr
    (.inr ⟨hforged, rfl⟩) [forgedLine, foreignLine] []

end Office

end EasyWaf.Forwarded
