import EasyWaf.Modules.JsonBody
import EasyWaf.Modules.MultipartBody
import EasyWaf.Modules.Severity

/-!
# The arguments a request holds

What a request's query and body hold, by the way its `Content-Type` says the body is
written, and when every bit of it is among the arguments the rules are shown.
-/

namespace EasyWaf.Modules

open Http Core.Cuts ZoneText

section Pairs

variable (engine : Engine)

/-- A form's pairs; nothing between two `&` is none. -/
def formPairs (text : Text) : List Text := (text.splitOn '&').filter fun pair => pair ≠ []

theorem foldl_pairs (found : List Text) (out : List Value) :
    found.foldl (fun out pair => if pair = [] then out else Value.push out (pairValue engine pair)) out =
      ((found.filter fun pair => pair ≠ []).map (pairValue engine)).foldl Value.push out := by
  induction found generalizing out with
  | nil => rfl
  | cons pair rest ih =>
      rw [List.foldl_cons, ih]
      by_cases hpair : pair = []
      · rw [if_pos hpair, List.filter_cons_of_neg (by simp [hpair])]
      · rw [if_neg hpair, List.filter_cons_of_pos (by simp [hpair]), List.map_cons, List.foldl_cons]

theorem foldl_push_of_room {values out : List Value} (hroom : out.length + values.length ≤ maxValues) :
    values.foldl Value.push out = out ++ values := by
  rw [foldl_push, List.take_of_length_le (by omega)]

/-- While there is room, every pair is read. -/
theorem pairs_eq {text : Text} {out : List Value}
    (hroom : out.length + (formPairs text).length ≤ maxValues) :
    pairs engine text out = out ++ (formPairs text).map (pairValue engine) := by
  rw [pairs, foldl_pairs]
  exact foldl_push_of_room (by rwa [List.length_map])

end Pairs

section Boundary

theorem not_mem_toStr {value : HeaderValue} {text : Text} (htext : value.toStr = some text) :
    '\n' ∉ text := by
  rw [HeaderValue.toStr] at htext
  split at htext
  · next hvisible =>
      rw [← Option.some.inj htext]
      intro hmem
      obtain ⟨byte, hbyte, hchar⟩ := List.mem_map.mp hmem
      have hshown := List.all_eq_true.mp hvisible byte hbyte
      have hlt := UInt8.toNat_lt byte
      have hnat : byte.toNat = 10 := by
        rw [← show (HeaderValue.charOf byte).toNat = byte.toNat by
          rw [HeaderValue.charOf, Char.toNat_ofNat, if_pos (Or.inl (by omega))], hchar]
        rfl
      rw [UInt8.toNat_inj.mp (hnat.trans (by decide : (10 : ℕ) = (10 : UInt8).toNat))] at hshown
      exact absurd hshown (by decide)
  · contradiction

theorem mem_of_mem_quoted {text : Text} {c : Char} (hc : c ∈ quoted text) : c ∈ text := by
  rw [quoted, Text.trimMatches, Text.trimEndMatches, Text.trimStartMatches] at hc
  apply Text.mem_of_mem_trim
  exact List.dropWhile_subset _ ((List.rdropWhile_prefix _ _).subset hc)

theorem mem_of_mem_paramOf {want value found : Text} (hfound : paramOf want value = some found)
    {c : Char} (hc : c ∈ found) : c ∈ value := by
  obtain ⟨part, hpart, hparam⟩ := List.exists_of_findSome?_eq_some hfound
  obtain ⟨⟨key, own⟩, hown, hwant⟩ := Option.bind_eq_some_iff.mp hparam
  have hsame : own = found := by
    dsimp only at hwant
    split_ifs at hwant
    exact Option.some.inj hwant
  subst hsame
  obtain ⟨⟨before, after⟩, hsplit, heq⟩ := Option.map_eq_some_iff.mp hown
  obtain ⟨rfl, rfl⟩ := Prod.mk.inj heq
  have hin : c ∈ part.trim := by
    rw [(Text.splitOnce_eq_some hsplit).1]
    exact List.mem_append_right _ (List.mem_cons_of_mem _ (mem_of_mem_quoted hc))
  exact (Core.mem_of_mem_splitOn (List.mem_of_mem_drop hpart) (Text.mem_of_mem_trim hin)).1

/-- A boundary is within its line. -/
theorem not_mem_boundary {headers : List (Text × HeaderValue)} {boundary : Text}
    (hkind : bodyKind headers = some (.multipart boundary)) : '\n' ∉ boundary := by
  obtain ⟨contentType, htype, hkind⟩ := Option.bind_eq_some_iff.mp hkind
  obtain ⟨value, -, hvalue⟩ := Option.bind_eq_some_iff.mp htype
  dsimp only at hkind
  have hboundary : (paramOf "boundary".toList contentType).getD [] = boundary := by
    split_ifs at hkind
    · simp at hkind
    · simp at hkind
    · simp at hkind
    · simpa using hkind
  rw [← hboundary]
  cases hparam : paramOf "boundary".toList contentType with
  | none => exact List.not_mem_nil
  | some found => exact fun hmem => not_mem_toStr hvalue (mem_of_mem_paramOf hparam hmem)

end Boundary

section Shown

variable (engine : Engine) (document : List UInt8 → Option Json) (ctx : RequestContext)
variable (body : List UInt8)

def queryPairs : List Text := ctx.query.elim [] formPairs

/-- How many arguments a request's query and body hold: a form's pairs, a document's
leaves and the names of what has no value of its own, a multipart body's parts, or
the one a body is that does not parse. -/
def argumentCount : ℕ :=
  (queryPairs ctx).length + match bodyKind ctx.headers with
    | some .form => (formPairs (Text.fromUtf8Lossy body)).length
    | some .json => (document body).elim 1 fun root => (root.argumentsOf engine []).length
    | some (.multipart boundary) => max 1 (parts boundary (Text.fromUtf8Lossy body)).length
    | some .xml | none => 0

/-- The arguments the rules are shown. -/
def shownArguments : List Value := argValues engine ctx body (multipartValues engine ctx body).1

/-- The rules are shown the query's arguments and those of a body: every pair of a
form, every leaf of a document where it is written, the content of every field of a
multipart body where its part begins, and whole what does not parse; an XML body's
text is shown as such. -/
def NothingHidden : Prop :=
  let query := (queryPairs ctx).map (pairValue engine)
  let text := Text.fromUtf8Lossy body
  match bodyKind ctx.headers with
  | some .form => shownArguments engine ctx body = query ++ (formPairs text).map (pairValue engine)
  | some .json =>
      match document body with
      | some root => ∃ values, shownArguments engine ctx body = query ++ values ∧
          values.filterMap Json.leafOf = (root.readAt [] []).map Json.Leaf.shown ∧
          root.readAt [] [] = root.leavesAt [] []
      | none => shownArguments engine ctx body = wholeBody body query
  | some (.multipart boundary) =>
      if parts boundary text = [] then shownArguments engine ctx body = wholeBody body query
      else
        ∀ part ∈ parts boundary text, ∀ content, fieldText part.2 = some content →
          ∃ value ∈ shownArguments engine ctx body,
            (part.1, value) ∈ readings engine boundary text (maxValues - query.length) ∧
              value.parsed = some (beforeBreak content)
  | some .xml => shownArguments engine ctx body = query ∧
      (engine.parseXml text = none → (xmlValues engine ctx body).1 = zoneText text false)
  | none => shownArguments engine ctx body = query

/-- A document's members come by their names; a multipart body's fields are exposed,
and one without a part has nothing to be read as one. -/
def Plain : Prop :=
  let text := Text.fromUtf8Lossy body
  match bodyKind ctx.headers with
  | some .json => ∀ root, document body = some root → root.Ordered
  | some (.multipart boundary) =>
      if parts boundary text = [] then
        boundary = [] ∨ ((readSections boundary text).takeWhile fun read => !closes read.2) = []
      else
        ∀ part ∈ parts boundary text, ∀ content, fieldText part.2 = some content →
          Exposed boundary text (maxValues - (queryPairs ctx).length) part.1 part.2 content
  | _ => True

variable {engine document ctx body}

theorem shownArguments_eq (hroom : (queryPairs ctx).length ≤ maxValues) :
    shownArguments engine ctx body =
      let query := (queryPairs ctx).map (pairValue engine)
      match bodyKind ctx.headers with
      | some .form => pairs engine (Text.fromUtf8Lossy body) query
      | some .json => (json engine body query).getD (wholeBody body query)
      | some (.multipart boundary) =>
          ((multipart engine body boundary).getD (wholeBody body [], [])).1.foldl Value.push query
      | some .xml | none => query := by
  have hquery : (ctx.query.elim [] fun query => pairs engine query []) =
      (queryPairs ctx).map (pairValue engine) := by
    rw [queryPairs] at hroom ⊢
    cases hq : ctx.query with
    | none => rfl
    | some query =>
        rw [hq] at hroom
        exact pairs_eq engine (by simpa using hroom)
  rw [shownArguments, argValues, hquery, multipartValues]
  cases hkind : bodyKind ctx.headers with
  | none => rfl
  | some kind => cases kind <;> rfl

/-- A JSON body's leaves are read as the document writes them exactly when it is in
order. -/
theorem json_shown_iff {root : Json} {out : List Value} {body : List UInt8}
    (hparse : engine.parseJson body = some root.held)
    (hroom : out.length + (root.argumentsOf engine []).length < maxValues) :
    (∃ values, (json engine body out).getD (wholeBody body out) = out ++ values ∧
        values.filterMap Json.leafOf = (root.readAt [] []).map Json.Leaf.shown ∧
        root.readAt [] [] = root.leavesAt [] []) ↔ root.Ordered := by
  have hread : json engine body out = some (out ++ root.held.argumentsOf engine []) := by
    have hle := Json.length_argumentsOf_held_le engine root []
    rw [json, hparse, Option.map_some, Json.jsonFrom_eq engine _ out, List.flatMap_singleton]
    rw [List.flatMap_singleton]
    dsimp only
    omega
  rw [hread, Option.getD_some, ← @Json.readAt_eq_leavesAt_iff root [] []]
  constructor
  · rintro ⟨values, -, -, horder⟩
    exact horder
  · intro horder
    exact ⟨_, rfl, Json.filterMap_argumentsOf_held engine root [] [], horder⟩

/-- A section of a text is shorter than the text. -/
theorem length_of_mem_readSections {boundary text : Text} {read : ℕ × Text}
    (hread : read ∈ readSections boundary text) : read.2.length < text.length := by
  have hne := delimiter_ne_nil boundary
  have hmem : read.2 ∈ (cutAll (delimiter boundary) text).drop 1 := by
    rw [← map_placed (delimiter boundary).length 0 (cutAll (delimiter boundary) text),
      ← List.map_drop, ← splitText_eq_cutAll hne]
    exact List.mem_map_of_mem hread
  have hreach := reach_intercalate (delimiter boundary) (cutAll_ne_nil hne text)
  rw [cutAll, intercalate_cut _ hne, ← cutAll] at hreach
  obtain ⟨first, rest, hcut⟩ := List.exists_cons_of_ne_nil (cutAll_ne_nil hne text)
  rw [hcut, List.drop_one, List.tail_cons] at hmem
  rw [hcut, reach_cons] at hreach
  have hle : read.2.length + (delimiter boundary).length ≤ reach (delimiter boundary).length rest :=
    List.single_le_sum (fun _ _ => Nat.zero_le _) _ (List.mem_map.mpr ⟨read.2, hmem, rfl⟩)
  have hpos := List.length_pos_iff.mpr hne
  omega

theorem length_readHead_le (body : Text) : (readHead body).2.length ≤ body.length := by
  have hfound : ∀ {line : Text} {found : Text × Text}, body.dropInfix? line = some found →
      found.2.length ≤ body.length := by
    rintro line ⟨before, after⟩ hfound
    have hlength := Text.length_of_dropInfix? hfound
    dsimp only
    omega
  rw [readHead]
  cases hcrlf : body.dropInfix? crlfLine with
  | some found => exact hfound hcrlf
  | none =>
      cases hlf : body.dropInfix? lfLine with
      | some found => exact hfound hlf
      | none => exact Nat.zero_le _

theorem length_afterBreak_le (text : Text) : (afterBreak text).length ≤ text.length := by
  rw [afterBreak_eq]
  cases hpast : pastBreak text with
  | none => exact le_rfl
  | some rest =>
      obtain ⟨ends, -, rfl⟩ := exists_break_of_pastBreak hpast
      rw [Option.getD_some, List.length_append]
      exact Nat.le_add_left _ _

/-- No section is read as the whole text is. -/
theorem parsed_ne_whole {boundary text : Text} {read : ℕ × Text}
    (hread : read ∈ readSections boundary text) :
    (sectionValues engine read.2).1.parsed ≠ some text := by
  rw [parsed_sectionValues]
  split
  · exact nofun
  · intro h
    have hlength := congrArg List.length (Option.some.inj h)
    have hread := length_of_mem_readSections hread
    have hbreak := length_beforeBreak_le (readHead (afterBreak read.2)).2
    have hhead := length_readHead_le (afterBreak read.2)
    have hafter := length_afterBreak_le read.2
    omega

theorem wholeBody_eq (body : List UInt8) (out : List Value) :
    wholeBody body out = out ++ wholeBody body [] := by
  rw [wholeBody, wholeBody]
  split
  · exact (List.append_nil out).symm
  · rfl

/-- A multipart body without a part is read whole exactly when nothing of it is read
as one. -/
theorem whole_shown_iff {boundary : Text} {out : List Value} {body : List UInt8}
    (hroom : out.length + 1 ≤ maxValues) :
    ((multipart engine body boundary).getD (wholeBody body [], [])).1.foldl Value.push out =
        wholeBody body out ↔
      boundary = [] ∨ ((readSections boundary (Text.fromUtf8Lossy body)).takeWhile fun read =>
        !closes read.2) = [] := by
  have hwhole : (wholeBody body []).foldl Value.push out = wholeBody body out := by
    have hlength : (wholeBody body []).length ≤ 1 := by
      rw [wholeBody]
      split
      · exact Nat.zero_le _
      · exact le_rfl
    rw [foldl_push_of_room (by omega), ← wholeBody_eq]
  by_cases hboundary : boundary = []
  · have hnone : multipart engine body boundary = none := if_pos hboundary
    rw [hnone]
    exact iff_of_true hwhole (Or.inl hboundary)
  · rcases multipart_eq engine hboundary body out with ⟨hnil, hnone⟩ | ⟨hsome, found, hfound, hpushed⟩
    · rw [hnone]
      exact iff_of_true hwhole (Or.inr hnil)
    · rw [hfound, Option.getD_some, hpushed, wholeBody_eq, List.append_cancel_left_eq]
      apply iff_of_false
      · intro heq
        obtain ⟨read, rest, hread⟩ := List.exists_cons_of_ne_nil hsome
        obtain ⟨room, hroomEq⟩ : ∃ room, maxValues - out.length = room + 1 :=
          ⟨maxValues - out.length - 1, by omega⟩
        have hmem : read ∈ readSections boundary (Text.fromUtf8Lossy body) :=
          List.takeWhile_subset _ (hread ▸ List.mem_cons_self)
        rw [readings, hread, hroomEq, List.take_succ_cons, List.map_cons, List.map_cons,
          wholeBody] at heq
        split at heq
        · contradiction
        · have hparsed := congrArg Value.parsed (List.cons.inj heq).1
          exact parsed_ne_whole hmem hparsed
      · rintro (h | h)
        · exact hboundary h
        · exact hsome h

theorem mem_pushed_of_mem_readings {boundary : Text} (hboundary : boundary ≠ []) {out : List Value}
    {body : List UInt8} {place : ℕ} {value : Value} (hread : (place, value) ∈
      readings engine boundary (Text.fromUtf8Lossy body) (maxValues - out.length)) :
    value ∈ ((multipart engine body boundary).getD (wholeBody body [], [])).1.foldl Value.push out := by
  rcases multipart_eq engine hboundary body out with ⟨hnil, -⟩ | ⟨-, found, hfound, hpushed⟩
  · rw [readings, hnil, List.take_nil] at hread
    exact absurd hread List.not_mem_nil
  · rw [hfound, Option.getD_some, hpushed]
    exact List.mem_append_right _ (List.mem_map_of_mem hread)

variable (document) in
/-- Nothing of a request within the limit is hidden from the rules exactly when it is
plain. -/
theorem nothingHidden_iff
    (hparse : ∀ body, engine.parseJson body = (document body).map Json.held)
    (hcount : argumentCount engine document ctx body < maxValues) :
    NothingHidden engine document ctx body ↔ Plain document ctx body := by
  have hroom : (queryPairs ctx).length ≤ maxValues :=
    (Nat.le_add_right _ _).trans hcount.le
  have hshown := @shownArguments_eq engine ctx body hroom
  rw [argumentCount] at hcount
  rw [NothingHidden, Plain]
  cases hkind : bodyKind ctx.headers with
  | none =>
      rw [hkind] at hshown
      exact iff_of_true hshown trivial
  | some kind =>
      rw [hkind] at hshown hcount
      cases kind with
      | form =>
          dsimp only at hshown hcount ⊢
          refine iff_of_true (hshown.trans (pairs_eq engine ?_)) trivial
          rw [List.length_map]
          exact hcount.le
      | json =>
          dsimp only at hshown hcount ⊢
          rw [hshown]
          have hread := hparse body
          cases hdocument : document body with
          | none =>
              rw [hdocument, Option.map_none] at hread
              rw [json, hread]
              exact iff_of_true rfl fun root hroot => absurd hroot (by simp)
          | some root =>
              rw [hdocument, Option.map_some] at hread
              rw [hdocument, Option.elim_some] at hcount
              simp only [Option.some.injEq, forall_eq']
              apply json_shown_iff hread
              rwa [List.length_map]
      | xml =>
          dsimp only at hshown ⊢
          refine iff_of_true ⟨hshown, fun hnone => ?_⟩ trivial
          rw [xmlValues, hkind]
          simp [hnone]
      | multipart boundary =>
          dsimp only at hshown hcount ⊢
          rw [hshown, List.length_map]
          by_cases hparts : parts boundary (Text.fromUtf8Lossy body) = []
          · rw [if_pos hparts, if_pos hparts]
            apply whole_shown_iff
            rw [List.length_map]
            omega
          · have hboundary : boundary ≠ [] := fun hnil => hparts (if_pos hnil)
            rw [if_neg hparts, if_neg hparts]
            refine forall₂_congr fun part hpart => forall₂_congr fun content hfield => ?_
            rw [← exists_reading_iff engine hboundary (not_mem_boundary hkind) hpart hfield]
            constructor
            · rintro ⟨value, -, hread⟩
              exact ⟨value, hread⟩
            · rintro ⟨value, hread, hparsed⟩
              refine ⟨value, ?_, hread, hparsed⟩
              apply mem_pushed_of_mem_readings hboundary
              rwa [List.length_map]

end Shown

section Upload

/-- A request with a body of a kind. -/
def posted (contentType body : Text) : RequestContext where
  clientIp := .v4 0
  method := "POST".toList
  path := "/".toList
  query := some "id=1".toList
  version := .http11
  headers := ((HeaderValue.fromStr contentType).map fun value =>
    ("content-type".toList, value)).toList
  body := body.bytes

def sortedDocument : Text := "\x7b\"a\":1,\"b\":[true,\"x\"]\x7d".toList

/-- A document whose members come by their names, and a parser that reads it. -/
def parsesSorted (body : List UInt8) : Option Json :=
  if body = sortedDocument.bytes then
    some (.object [("a".toList, .number "1".toList),
      ("b".toList, .array [.bool true, .string "x".toList])])
  else none

def sortedEngine : Engine :=
  { Waf.literalWaf.engine with parseJson := fun body => (parsesSorted body).map Json.held }

theorem sorted_document_is_shown :
    NothingHidden sortedEngine parsesSorted (posted "application/json".toList sortedDocument)
      sortedDocument.bytes := by
  have hkind : bodyKind (posted "application/json".toList sortedDocument).headers = some .json := by
    decide +kernel
  refine (nothingHidden_iff parsesSorted (fun _ => rfl) ?_).mpr ?_
  · rw [argumentCount, hkind, parsesSorted, if_pos rfl]
    decide +kernel
  · rw [Plain, hkind]
    intro root hroot
    rw [parsesSorted, if_pos rfl] at hroot
    rw [← Option.some.inj hroot]
    apply Json.Ordered.object
    · decide
    · intro member hmember
      simp only [List.mem_cons, List.not_mem_nil, or_false] at hmember
      rcases hmember with rfl | rfl
      · exact .number _
      · apply Json.Ordered.array
        intro item hitem
        simp only [List.mem_cons, List.not_mem_nil, or_false] at hitem
        rcases hitem with rfl | rfl
        · exact .bool _
        · exact .string _

/-- A form posted in parts between lines of dashes and `b`. -/
def upload (body : Text) : RequestContext := posted "multipart/form-data; boundary=b".toList body

def fieldPart (name content : Text) : Text :=
  "--b\r\nContent-Disposition: form-data; name=".toList ++ name ++ "\r\n\r\n".toList ++ content ++
    "\r\n".toList

/-- A comment that holds the last delimiter's text, and a field after it. -/
def hidingForm : Text :=
  fieldPart "note".toList "see --b-- below".toList ++ fieldPart "q".toList "UNION SELECT".toList ++
    "--b--\r\n".toList

theorem bodyKind_upload (body : Text) :
    bodyKind (upload body).headers = some (.multipart ['b']) := by
  have hkind : bodyKind (upload []).headers = some (.multipart ['b']) := by decide +kernel
  exact hkind

theorem parts_hidingForm : (parts ['b'] hidingForm).map (fun part => (part.1, fieldText part.2)) =
    [(3, some "see --b-- below\r\n".toList), (70, some "UNION SELECT\r\n".toList)] := by
  decide +kernel

theorem readSections_hidingForm :
    ((readSections ['b'] hidingForm).takeWhile fun read => !closes read.2).map (·.1) = [3] := by
  decide +kernel

theorem hidden_behind_a_comment :
    argumentCount Waf.literalWaf.engine (fun _ => none) (upload hidingForm) hidingForm.bytes <
        maxValues ∧
      ¬ NothingHidden Waf.literalWaf.engine (fun _ => none) (upload hidingForm)
        hidingForm.bytes := by
  constructor
  · rw [argumentCount, bodyKind_upload]
    dsimp only
    rw [Text.fromUtf8Lossy_bytes, ← List.length_map (f := fun part : ℕ × Text =>
      (part.1, fieldText part.2)), parts_hidingForm]
    decide +kernel
  · rw [NothingHidden, bodyKind_upload]
    dsimp only
    rw [Text.fromUtf8Lossy_bytes, if_neg]
    · intro hshown
      have hmem : ((70, some "UNION SELECT\r\n".toList) : ℕ × Option Text) ∈
          (parts ['b'] hidingForm).map fun part => (part.1, fieldText part.2) := by
        rw [parts_hidingForm]
        simp
      obtain ⟨part, hpart, heq⟩ := List.mem_map.mp hmem
      obtain ⟨hplace, hfield⟩ := Prod.mk.inj heq
      obtain ⟨value, -, hread, -⟩ := hshown part hpart _ hfield
      rw [hplace] at hread
      obtain ⟨read, hin, hreadEq⟩ := List.mem_map.mp hread
      have hat : read.1 ∈ ((readSections ['b'] hidingForm).takeWhile fun read => !closes read.2).map
          (·.1) := List.mem_map_of_mem (List.mem_of_mem_take hin)
      rw [readSections_hidingForm, (Prod.mk.inj hreadEq).1] at hat
      exact absurd hat (by decide)
    · intro hnil
      have hparts := parts_hidingForm
      rw [hnil] at hparts
      exact absurd hparts (by simp)

end Upload

end EasyWaf.Modules
