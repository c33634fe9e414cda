import EasyWaf.Http.Header

/-!
# Bodies sent compressed

The rules read a compressed body as what it holds.  Which decoder is run is said
by the first `Content-Encoding` line alone, and what the decoder leaves unread of
the body nothing else reads.
-/

namespace EasyWaf.Modules.Waf

open Http

/-- A run of a decoder over a body: the bytes it takes until it ends, fails or has
given all it may, and what it gives. -/
structure Decoding where
  consumed : ℕ
  plain : List UInt8
  deriving DecidableEq

/-- The decoders of `flate2`, each run over a body as far as a limit on what it
gives. -/
structure Decoders where
  multiGz : ℕ → List UInt8 → Decoding
  zlib : ℕ → List UInt8 → Decoding
  deflate : ℕ → List UInt8 → Decoding

def contentEncodingHeader : Text := "content-encoding".toList

def headerText (value : HeaderValue) : Text := Text.fromUtf8Lossy value.bytes

/-- The first `Content-Encoding` line. -/
def contentEncoding (headers : HeaderMap) : Option Text :=
  (headers.get contentEncodingHeader).map fun value => (headerText value).trim.toAsciiLowercase

section Inflated

variable (decoders : Decoders) (limit : ℕ) (headers : HeaderMap) (body : List UInt8)

/-- "deflate" is zlib-wrapped by the standard and raw in practice. -/
def Decoders.either : Decoding :=
  let wrapped := decoders.zlib limit body
  if wrapped.plain = [] then decoders.deflate limit body else wrapped

/-- What is run over a body. -/
def decoding : Option Decoding :=
  (contentEncoding headers).bind fun encoding =>
    if encoding = "gzip".toList ∨ encoding = "x-gzip".toList then some (decoders.multiGz limit body)
    else if encoding = "deflate".toList then some (decoders.either limit body)
    else none

/-- `inflated`. -/
def inflated : Option (List UInt8) :=
  (decoding decoders limit headers body).bind fun run =>
    if run.plain = [] then none else some run.plain

/-- The body as `BODY` and `ARG` read it. -/
def plainBody : List UInt8 := (inflated decoders limit headers body).getD body

/-- A byte of the body the rules read, or read what it was decoded to. -/
def InSight (i : ℕ) : Prop :=
  plainBody decoders limit headers body = body ∨
    ∃ run, decoding decoders limit headers body = some run ∧
      plainBody decoders limit headers body = run.plain ∧ i < run.consumed

end Inflated

/-- The codings of a body this reads; `deflate` is the one without a wrapping. -/
inductive Coding
  | gzip
  | zlib
  | deflate
  deriving DecidableEq

/-- The names a coding goes by in a header, in lower case. -/
def Coding.names : Coding → List Text
  | .gzip => ["gzip".toList, "x-gzip".toList]
  | .zlib | .deflate => ["deflate".toList]

/-- The codings a request's lines list, but for `identity`. -/
def codings (headers : HeaderMap) : List Text :=
  (((headers.getAll contentEncodingHeader).flatMap fun value =>
    Text.pieces ',' (headerText value)).map Text.toAsciiLowercase).filter fun name =>
      name ≠ [] ∧ name ≠ "identity".toList

/-- The lines list this one coding. -/
def Coding.Named (coding : Coding) (headers : HeaderMap) : Prop :=
  ∃ name ∈ coding.names, codings headers = [name]

/-- The first line is a name of this coding and nothing else. -/
def Coding.Alone (coding : Coding) (headers : HeaderMap) : Prop :=
  ∃ name ∈ coding.names, contentEncoding headers = some name

/-- The decoders give what a stream was made of, as far as they may; `Stream` is
what each coding makes of a text. -/
structure Decoders.Correct (decoders : Decoders)
    (Stream : Coding → List UInt8 → List UInt8 → Prop) : Prop where
  gzip : ∀ limit text body, Stream .gzip text body →
    (decoders.multiGz limit body).plain = text.take limit
  zlib : ∀ limit text body, Stream .zlib text body →
    (decoders.zlib limit body).plain = text.take limit
  deflate : ∀ limit text body, Stream .deflate text body →
    (decoders.deflate limit body).plain = text.take limit
  nonempty : ∀ coding text body, Stream coding text body → body ≠ []

section Naming

variable {headers : HeaderMap} {coding : Coding}

theorem comma_not_mem_of_lowercase {text : Text} (hcomma : ',' ∉ text.toAsciiLowercase) :
    ',' ∉ text := fun hmem => hcomma (List.mem_map.mpr ⟨',', hmem, rfl⟩)

theorem comma_not_mem_of_trim {text : Text} (hcomma : ',' ∉ text.trim) : ',' ∉ text := by
  obtain ⟨before, after, htext, hbefore, hafter⟩ := Core.exists_append_trim Text.isWhitespace text
  have hblank : Text.isWhitespace ',' = false := by decide
  intro hmem
  rw [htext, List.mem_append, List.mem_append] at hmem
  rcases hmem with (hmem | hmem) | hmem
  · exact Core.not_mem_of_blank hblank hbefore hmem
  · exact hcomma hmem
  · exact Core.not_mem_of_blank hblank hafter hmem

/-- A first line without a comma is one of the codings listed. -/
theorem mem_codings_of_contentEncoding {name : Text} (hname : contentEncoding headers = some name)
    (hcomma : ',' ∉ name) (hne : name ≠ []) (hidentity : name ≠ "identity".toList) :
    name ∈ codings headers := by
  obtain ⟨value, hvalue, rfl⟩ := Option.map_eq_some_iff.mp hname
  have hpieces : Text.pieces ',' (headerText value) = [(headerText value).trim] :=
    Core.pieces_of_not_mem (comma_not_mem_of_trim (comma_not_mem_of_lowercase hcomma))
  have hmem : value ∈ headers.getAll contentEncodingHeader := List.mem_of_mem_head? hvalue
  rw [codings, List.mem_filter]
  constructor
  · apply List.mem_map_of_mem
    apply List.mem_flatMap.mpr
    exact ⟨value, hmem, hpieces ▸ List.mem_singleton_self _⟩
  · exact decide_eq_true ⟨hne, hidentity⟩

/-- Where the lines list one coding and the first line is not it, the first line
is no coding that is run. -/
theorem contentEncoding_of_not_alone (hnamed : coding.Named headers)
    (halone : ¬ coding.Alone headers) (name : Text)
    (hname : name ∈ ["gzip".toList, "x-gzip".toList, "deflate".toList]) :
    contentEncoding headers ≠ some name := by
  intro hencoding
  have hplain : ∀ name ∈ ["gzip".toList, "x-gzip".toList, "deflate".toList],
      ',' ∉ name ∧ name ≠ [] ∧ name ≠ "identity".toList := by decide
  obtain ⟨hcomma, hne, hidentity⟩ := hplain name hname
  obtain ⟨listed, hlisted, hcodings⟩ := hnamed
  have hmem := mem_codings_of_contentEncoding hencoding hcomma hne hidentity
  rw [hcodings, List.mem_singleton] at hmem
  exact halone ⟨listed, hlisted, hmem ▸ hencoding⟩

end Naming

section Reading

variable {decoders : Decoders} {limit : ℕ} {headers : HeaderMap} {body : List UInt8}

/-- A run that leaves nothing of the body unread, or whose result is not what is
read in its place. -/
def Decoding.Exhausts (run : Decoding) (body : List UInt8) : Prop :=
  run.plain = [] ∨ run.plain = body ∨ body.length ≤ run.consumed

theorem decoding_of_gzip (halone : Coding.gzip.Alone headers) :
    decoding decoders limit headers body = some (decoders.multiGz limit body) := by
  obtain ⟨name, hname, hencoding⟩ := halone
  rw [decoding, hencoding, Option.bind_some, if_pos]
  simpa [Coding.names] using hname

theorem decoding_of_deflate (hencoding : contentEncoding headers = some "deflate".toList) :
    decoding decoders limit headers body = some (decoders.either limit body) := by
  rw [decoding, hencoding, Option.bind_some, if_neg (by decide), if_pos rfl]

theorem decoding_of_none (hnone : ∀ name ∈ ["gzip".toList, "x-gzip".toList, "deflate".toList],
    contentEncoding headers ≠ some name) : decoding decoders limit headers body = none := by
  rw [decoding]
  cases hencoding : contentEncoding headers with
  | none => rfl
  | some name =>
      have hname : name ∉ ["gzip".toList, "x-gzip".toList, "deflate".toList] :=
        fun hmem => hnone name hmem hencoding
      simp only [List.mem_cons, List.not_mem_nil, or_false, not_or] at hname
      rw [Option.bind_some, if_neg (not_or.mpr ⟨hname.1, hname.2.1⟩), if_neg hname.2.2]

theorem plainBody_of_none (hnone : decoding decoders limit headers body = none) :
    plainBody decoders limit headers body = body := by
  rw [plainBody, inflated, hnone]
  rfl

theorem plainBody_of_some {run : Decoding}
    (hrun : decoding decoders limit headers body = some run) :
    plainBody decoders limit headers body = if run.plain = [] then body else run.plain := by
  rw [plainBody, inflated, hrun, Option.bind_some]
  split <;> rfl

theorem inSight_iff {run : Decoding} (hrun : decoding decoders limit headers body = some run) :
    (∀ i < body.length, InSight decoders limit headers body i) ↔ run.Exhausts body := by
  have hread := plainBody_of_some hrun
  by_cases hempty : run.plain = []
  · rw [if_pos hempty] at hread
    exact iff_of_true (fun i _ => Or.inl hread) (Or.inl hempty)
  · rw [if_neg hempty] at hread
    constructor
    · intro hsight
      by_contra hhidden
      simp only [Decoding.Exhausts, not_or, not_le] at hhidden
      obtain ⟨-, hother, hleft⟩ := hhidden
      rcases hsight run.consumed hleft with hbody | ⟨other, hsome, -, hconsumed⟩
      · exact hother (hread.symm.trans hbody)
      · obtain rfl := Option.some.inj (hrun.symm.trans hsome)
        exact lt_irrefl _ hconsumed
    · rintro (hplain | hplain | hconsumed) i hi
      · exact absurd hplain hempty
      · exact Or.inl (hread.trans hplain)
      · exact Or.inr ⟨run, hrun, hread, hi.trans_le hconsumed⟩

/-- Every byte of a body is in sight of the rules exactly where the decoder the
first line names leaves nothing of it unread. -/
theorem all_inSight_iff :
    (∀ i < body.length, InSight decoders limit headers body i) ↔
      (Coding.gzip.Alone headers → (decoders.multiGz limit body).Exhausts body) ∧
      (contentEncoding headers = some "deflate".toList →
        (decoders.either limit body).Exhausts body) := by
  by_cases hgzip : Coding.gzip.Alone headers
  · have hother : contentEncoding headers ≠ some "deflate".toList := by
      obtain ⟨name, hname, hencoding⟩ := hgzip
      rw [hencoding, ne_eq, Option.some.injEq]
      rintro rfl
      exact absurd hname (by decide)
    rw [inSight_iff (decoding_of_gzip hgzip)]
    exact ⟨fun hrun => ⟨fun _ => hrun, fun hencoding => absurd hencoding hother⟩,
      fun hruns => hruns.1 hgzip⟩
  · by_cases hdeflate : contentEncoding headers = some "deflate".toList
    · rw [inSight_iff (decoding_of_deflate hdeflate)]
      exact ⟨fun hrun => ⟨fun halone => absurd halone hgzip, fun _ => hrun⟩,
        fun hruns => hruns.2 hdeflate⟩
    · have hnone : decoding decoders limit headers body = none := by
        apply decoding_of_none
        intro name hname hencoding
        simp only [List.mem_cons, List.not_mem_nil, or_false] at hname
        rcases hname with rfl | rfl | rfl
        · exact hgzip ⟨_, by decide, hencoding⟩
        · exact hgzip ⟨_, by decide, hencoding⟩
        · exact hdeflate hencoding
      exact iff_of_true (fun i _ => Or.inl (plainBody_of_none hnone))
        ⟨fun halone => absurd halone hgzip, fun hencoding => absurd hencoding hdeflate⟩

theorem either_eq_zlib (hne : (decoders.zlib limit body).plain ≠ []) :
    decoders.either limit body = decoders.zlib limit body := if_neg hne

theorem either_eq_deflate (hempty : (decoders.zlib limit body).plain = []) :
    decoders.either limit body = decoders.deflate limit body := if_pos hempty

variable {Stream : Coding → List UInt8 → List UInt8 → Prop} {coding : Coding}
  {text : List UInt8}

/-- What is read of a stream of a coding is its text, unless the other decoder gave
something else first. -/
theorem plainBody_of_alone_iff (hcorrect : decoders.Correct Stream)
    (hstream : Stream coding text body) (halone : coding.Alone headers)
    (htext : text.take limit ≠ []) :
    plainBody decoders limit headers body = text.take limit ↔
      (coding = .deflate → (decoders.zlib limit body).plain = [] ∨
        (decoders.zlib limit body).plain = text.take limit) := by
  cases coding with
  | gzip =>
      have hplain := hcorrect.gzip limit text body hstream
      rw [plainBody_of_some (decoding_of_gzip halone), hplain, if_neg htext]
      exact iff_of_true rfl (by rintro ⟨⟩)
  | zlib =>
      obtain ⟨name, hname, hencoding⟩ := halone
      rw [Coding.names, List.mem_singleton] at hname
      have hplain := hcorrect.zlib limit text body hstream
      rw [plainBody_of_some (decoding_of_deflate (hname ▸ hencoding)),
        either_eq_zlib (hplain.symm ▸ htext), hplain, if_neg htext]
      exact iff_of_true rfl (by rintro ⟨⟩)
  | deflate =>
      obtain ⟨name, hname, hencoding⟩ := halone
      rw [Coding.names, List.mem_singleton] at hname
      rw [plainBody_of_some (decoding_of_deflate (hname ▸ hencoding))]
      by_cases hempty : (decoders.zlib limit body).plain = []
      · rw [either_eq_deflate hempty, hcorrect.deflate limit text body hstream, if_neg htext]
        exact iff_of_true rfl fun _ => Or.inl hempty
      · rw [either_eq_zlib hempty, if_neg hempty]
        exact ⟨fun hplain _ => Or.inr hplain, fun hor => (hor rfl).resolve_left hempty⟩

/-- A text of which nothing is inflated is read as what it was compressed to. -/
theorem plainBody_ne_nil (hbody : body ≠ []) : plainBody decoders limit headers body ≠ [] := by
  cases hrun : decoding decoders limit headers body with
  | none => rwa [plainBody_of_none hrun]
  | some run =>
      rw [plainBody_of_some hrun]
      split
      · exact hbody
      · assumption

theorem plainBody_of_stream_iff (hcorrect : decoders.Correct Stream)
    (hstream : Stream coding text body) (hnamed : coding.Named headers) :
    plainBody decoders limit headers body = text.take limit ↔
      text.take limit ≠ [] ∧
        (coding.Alone headers ∧ (coding = .deflate → (decoders.zlib limit body).plain = [] ∨
            (decoders.zlib limit body).plain = text.take limit) ∨
          ¬ coding.Alone headers ∧ body = text.take limit) := by
  have hbody := hcorrect.nonempty coding text body hstream
  by_cases htext : text.take limit = []
  · apply iff_of_false
    · rw [htext]
      exact plainBody_ne_nil hbody
    · exact fun h => h.1 htext
  by_cases halone : coding.Alone headers
  · rw [plainBody_of_alone_iff hcorrect hstream halone htext]
    exact ⟨fun hother => ⟨htext, Or.inl ⟨halone, hother⟩⟩,
      fun h => (h.2.resolve_right fun h => h.1 halone).2⟩
  · have hnone : decoding decoders limit headers body = none :=
      decoding_of_none (contentEncoding_of_not_alone hnamed halone)
    rw [plainBody_of_none hnone]
    exact ⟨fun hsame => ⟨htext, Or.inr ⟨halone, hsame⟩⟩,
      fun h => (h.2.resolve_left fun h => halone h.1).2⟩

/-- A `Content-Encoding` hides nothing exactly where the decoder its first line
names leaves none of the body unread; and a compressed body is read as its text
exactly where that line names the coding and nothing else, something is inflated at
all, and what has no wrapping does not pass for what has one. -/
theorem encoding_hides_nothing (hcorrect : decoders.Correct Stream) (limit : ℕ)
    (headers : HeaderMap) (body : List UInt8) :
    ((∀ i < body.length, InSight decoders limit headers body i) ↔
      (Coding.gzip.Alone headers → (decoders.multiGz limit body).Exhausts body) ∧
      (contentEncoding headers = some "deflate".toList →
        (decoders.either limit body).Exhausts body)) ∧
    ∀ coding text, Stream coding text body → coding.Named headers →
      (plainBody decoders limit headers body = text.take limit ↔
        text.take limit ≠ [] ∧
          (coding.Alone headers ∧ (coding = .deflate → (decoders.zlib limit body).plain = [] ∨
              (decoders.zlib limit body).plain = text.take limit) ∨
            ¬ coding.Alone headers ∧ body = text.take limit)) :=
  ⟨all_inSight_iff, fun _ _ hstream hnamed => plainBody_of_stream_iff hcorrect hstream hnamed⟩

end Reading

section Stored

/-- What the decoders make of one last block that is stored as it is. -/
def storedBlock (limit : ℕ) : List UInt8 → Decoding
  | 1 :: low :: high :: lowCheck :: highCheck :: rest =>
      if lowCheck = ~~~low ∧ highCheck = ~~~high then
        let plain := rest.take (min limit (low.toNat + 256 * high.toNat))
        { consumed := 5 + plain.length, plain }
      else { consumed := 5, plain := [] }
  | _ => { consumed := 0, plain := [] }

/-- And of that block in zlib's wrapping: two bytes before it, four after. -/
def storedZlib (limit : ℕ) : List UInt8 → Decoding
  | 0x78 :: 0x01 :: rest =>
      let block := storedBlock limit rest
      { consumed := 2 + block.consumed + 4, plain := block.plain }
  | _ => { consumed := 0, plain := [] }

def storedDecoders : Decoders where
  multiGz _ _ := { consumed := 0, plain := [] }
  zlib := storedZlib
  deflate := storedBlock

/-- `a`, as zlib stores it. -/
def storedLetter : List UInt8 := [0x78, 0x01, 1, 1, 0, 254, 255, 97, 0, 98, 0, 98]

def StoredLetter (coding : Coding) (text body : List UInt8) : Prop :=
  coding = .zlib ∧ text = [97] ∧ body = storedLetter

theorem storedDecoders_correct : storedDecoders.Correct StoredLetter where
  gzip _ _ _ hstream := by cases hstream.1
  zlib limit text body hstream := by
    obtain ⟨-, rfl, rfl⟩ := hstream
    have htake : (storedDecoders.zlib limit storedLetter).plain =
        [97, 0, 98, 0, 98].take (min limit 1) := rfl
    rw [htake]
    cases limit with
    | zero => rfl
    | succ limit =>
        rw [min_eq_right (Nat.le_add_left 1 limit), List.take_succ_cons, List.take_succ_cons,
          List.take_nil, List.take_zero]
  deflate _ _ _ hstream := by cases hstream.1
  nonempty _ _ _ hstream := by
    rw [hstream.2.2]
    exact List.cons_ne_nil _ _

/-- The headers of a request with this one `Content-Encoding` line. -/
def encodedAs (line : Text) : HeaderMap where
  getAll name := if name = contentEncodingHeader then (HeaderValue.fromStr line).toList else []

theorem stored_letter_is_read :
    storedDecoders.Correct StoredLetter ∧
      plainBody storedDecoders 1024 (encodedAs "Deflate ".toList) storedLetter = [97] :=
  ⟨storedDecoders_correct,
    ((encoding_hides_nothing storedDecoders_correct 1024 (encodedAs "Deflate ".toList)
      storedLetter).2 .zlib [97] ⟨rfl, rfl, rfl⟩
      ⟨"deflate".toList, by decide +kernel, by decide +kernel⟩).mpr
      ⟨by decide, Or.inl ⟨⟨"deflate".toList, by decide +kernel, by decide +kernel⟩, by rintro ⟨⟩⟩⟩⟩

/-- `a` as zlib stores it, and a text behind it. -/
def letterAndMore : List UInt8 := storedLetter ++ Text.bytes "&q=' or 1=1".toList

/-- What stands behind the stream is in no rule's sight; and an `identity` beside the
coding leaves the body as it was sent. -/
theorem text_behind_the_stream_is_hidden :
    plainBody storedDecoders 1024 (encodedAs "deflate".toList) letterAndMore = [97] ∧
      (∀ i, 12 ≤ i → ¬ InSight storedDecoders 1024 (encodedAs "deflate".toList) letterAndMore i) ∧
      letterAndMore.length = 23 ∧
      Coding.zlib.Named (encodedAs "deflate, identity".toList) ∧
      plainBody storedDecoders 1024 (encodedAs "deflate, identity".toList) storedLetter =
        storedLetter := by
  have hrun : decoding storedDecoders 1024 (encodedAs "deflate".toList) letterAndMore =
      some { consumed := 12, plain := [97] } := by decide +kernel
  have hplain : plainBody storedDecoders 1024 (encodedAs "deflate".toList) letterAndMore = [97] := by
    decide +kernel
  refine ⟨hplain, ?_, by decide, ⟨"deflate".toList, by decide, by decide +kernel⟩,
    by decide +kernel⟩
  rintro i hi (hbody | ⟨run, hsome, -, hconsumed⟩)
  · exact absurd (hplain.symm.trans hbody) (by decide)
  · obtain rfl := Option.some.inj (hrun.symm.trans hsome)
    exact absurd hconsumed (not_lt.mpr hi)

end Stored

end EasyWaf.Modules.Waf
