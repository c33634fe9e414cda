import EasyWaf.Proxy.Serve

/-!
# The start of a body

A body arrives in chunks, and only so many whole chunks are read before the verdict
as reach the limit.  What was read followed by what was not is the body as it arrived,
and what the rules see of it depends on its bytes alone.
-/

namespace EasyWaf.Proxy

/-- A body as it arrives.  Each part comes some time after it is asked for, or never. -/
inductive Body (E : Type*)
  | ended (after : Option ℕ)
  | failed (after : Option ℕ) (error : E)
  | chunk (after : Option ℕ) (bytes : List UInt8) (rest : Body E)

/-- Why the start of a body could not be read. -/
inductive PrefixError (E : Type*)
  | read (error : E)
  | stalled

/-- The start of a body as it was read, and the unread remainder. -/
structure Prefix (E : Type*) where
  head : List UInt8
  complete : Bool
  rest : Body E

/-- What the request goes on with: the prefix, and what of it the rules see. -/
structure ReadStart (E : Type*) where
  start : Prefix E
  inspected : List UInt8

def ReadStart.bodyStart {E : Type*} (read : ReadStart E) : BodyStart where
  complete := read.start.complete
  inspected := read.inspected

/-- A status and a text for the client. -/
structure ErrorResponse where
  status : ℕ
  message : Text
  deriving DecidableEq

/-- `BODY_STALL_TIMEOUT`, in nanoseconds. -/
def bodyStallTimeout : ℕ := 30 * 10 ^ 9

/-- `timeout`: whether what is waited for comes in time. -/
def inTime (stall : ℕ) (after : Option ℕ) : Bool := after.any (· ≤ stall)

variable {E : Type*}

section Reading

variable (limit stall : ℕ)

/-- The loop of `read_prefix`, with what was read so far. -/
def readPrefixFrom (head : List UInt8) (body : Body E) : Except (PrefixError E) (Prefix E) :=
  if head.length < limit then
    match body with
    | .chunk after bytes rest =>
        if inTime stall after then readPrefixFrom (head ++ bytes) rest else .error .stalled
    | .failed after error => .error (if inTime stall after then .read error else .stalled)
    | .ended after =>
        if inTime stall after then .ok { head, complete := true, rest := .ended after }
        else .error .stalled
  else .ok { head, complete := false, rest := body }

/-- `read_prefix`. -/
def readPrefix (body : Body E) : Except (PrefixError E) (Prefix E) :=
  readPrefixFrom limit stall [] body

def PrefixError.response : PrefixError E → ErrorResponse
  | .read _ => ⟨400, "Failed to read request body".toList⟩
  | .stalled => ⟨408, "The request body stopped arriving".toList⟩

/-- `read_body_start`. -/
def readBodyStart (body : Body E) : Except ErrorResponse (ReadStart E) :=
  match readPrefix limit bodyStallTimeout body with
  | .error error => .error error.response
  | .ok start =>
      .ok {
        start
        inspected := if limit < start.head.length then start.head.take limit else start.head }

end Reading

namespace Body

/-- The bytes of a body, in order. -/
def bytes : Body E → List UInt8
  | .ended _ => []
  | .failed _ _ => []
  | .chunk _ bytes rest => bytes ++ rest.bytes

/-- A body that begins with some chunks. -/
def prepend (chunks : List (Option ℕ × List UInt8)) (rest : Body E) : Body E :=
  chunks.foldr (fun arrival rest => .chunk arrival.1 arrival.2 rest) rest

/-- The bytes that arrive before a failure or a stall, and which of the two comes
after them. -/
def arrived (stall : ℕ) : Body E → List UInt8 × Option (PrefixError E)
  | .ended after => ([], if inTime stall after then none else some .stalled)
  | .failed after error => ([], some (if inTime stall after then .read error else .stalled))
  | .chunk after bytes rest =>
      if inTime stall after then (bytes ++ (rest.arrived stall).1, (rest.arrived stall).2)
      else ([], some .stalled)

theorem bytes_prepend (chunks : List (Option ℕ × List UInt8)) (rest : Body E) :
    (rest.prepend chunks).bytes = chunks.flatMap (·.2) ++ rest.bytes := by
  induction chunks with
  | nil => rfl
  | cons arrival chunks ih =>
      rw [List.flatMap_cons, List.append_assoc, ← ih]
      rfl

end Body

section Start

variable {limit stall : ℕ} {head bytes : List UInt8} {body rest : Body E} {start : Prefix E}
  {error : PrefixError E} {after : Option ℕ}

/-- A prefix read from a body, with some of it in hand before. -/
structure Taken (limit : ℕ) (head : List UInt8) (body : Body E) (start : Prefix E) : Prop where
  split : ∃ chunks, body = start.rest.prepend chunks ∧ start.head = head ++ chunks.flatMap (·.2)
  whole : start.complete = true → start.head.length < limit ∧ ∃ after, start.rest = .ended after
  reached : start.complete = false → limit ≤ start.head.length

theorem Taken.stop (hreached : limit ≤ head.length) :
    Taken limit head body { head, complete := false, rest := body } where
  split := ⟨[], rfl, (List.append_nil head).symm⟩
  whole hcomplete := absurd hcomplete Bool.false_ne_true
  reached _ := hreached

theorem Taken.ended (hshort : head.length < limit) (after : Option ℕ) :
    Taken (E := E) limit head (.ended after)
      { head, complete := true, rest := .ended after } where
  split := ⟨[], rfl, (List.append_nil head).symm⟩
  whole _ := ⟨hshort, after, rfl⟩
  reached hcomplete := absurd hcomplete.symm Bool.false_ne_true

theorem Taken.chunk (htaken : Taken limit (head ++ bytes) rest start) :
    Taken limit head (.chunk after bytes rest) start where
  split := by
    obtain ⟨chunks, hrest, hhead⟩ := htaken.split
    refine ⟨(after, bytes) :: chunks, congrArg (Body.chunk after bytes) hrest, ?_⟩
    rw [hhead, List.append_assoc, List.flatMap_cons]
  whole := htaken.whole
  reached := htaken.reached

theorem taken_of_readPrefixFrom (hread : readPrefixFrom limit stall head body = .ok start) :
    Taken limit head body start := by
  induction body generalizing head with
  | ended after =>
      unfold readPrefixFrom at hread
      dsimp only at hread
      split at hread
      case isTrue hshort =>
        split at hread
        · obtain rfl := Except.ok.inj hread
          exact Taken.ended hshort after
        · contradiction
      case isFalse hreached =>
        obtain rfl := Except.ok.inj hread
        exact Taken.stop (not_lt.mp hreached)
  | failed after error =>
      unfold readPrefixFrom at hread
      dsimp only at hread
      split at hread
      case isTrue => contradiction
      case isFalse hreached =>
        obtain rfl := Except.ok.inj hread
        exact Taken.stop (not_lt.mp hreached)
  | chunk after bytes rest ih =>
      unfold readPrefixFrom at hread
      dsimp only at hread
      split at hread
      case isTrue =>
        split at hread
        · exact Taken.chunk (ih hread)
        · contradiction
      case isFalse hreached =>
        obtain rfl := Except.ok.inj hread
        exact Taken.stop (not_lt.mp hreached)

/-- The bytes a prefix leaves out are those of the rest. -/
theorem Taken.bytes_eq (htaken : Taken limit [] body start) :
    start.head ++ start.rest.bytes = body.bytes := by
  obtain ⟨chunks, rfl, hhead⟩ := htaken.split
  rw [hhead, Body.bytes_prepend, List.nil_append]

theorem Taken.complete_iff (htaken : Taken limit [] body start) :
    start.complete = true ↔ body.bytes.length < limit := by
  constructor
  · intro hcomplete
    obtain ⟨hshort, after, hrest⟩ := htaken.whole hcomplete
    rw [← htaken.bytes_eq, hrest, Body.bytes, List.append_nil]
    exact hshort
  · intro hshort
    by_contra hstopped
    have hreached := htaken.reached (Bool.eq_false_iff.mpr hstopped)
    rw [← htaken.bytes_eq, List.length_append] at hshort
    omega

/-- What the rules see does not depend on the chunks. -/
theorem Taken.inspected (htaken : Taken limit [] body start) :
    (if limit < start.head.length then start.head.take limit else start.head) =
      body.bytes.take limit := by
  rw [← htaken.bytes_eq]
  split
  case isTrue hlonger => rw [List.take_append_of_le_length hlonger.le]
  case isFalse hlonger =>
    cases hcomplete : start.complete with
    | true =>
        obtain ⟨hshort, after, hrest⟩ := htaken.whole hcomplete
        rw [hrest, Body.bytes, List.append_nil, List.take_of_length_le hshort.le]
    | false =>
        have hexact : start.head.length = limit :=
          le_antisymm (not_lt.mp hlonger) (htaken.reached hcomplete)
        rw [← hexact, List.take_left]

/-- Reading fails with what cuts the body short before the limit, and with nothing
else. -/
theorem readPrefixFrom_eq_error_iff :
    readPrefixFrom limit stall head body = .error error ↔
      (body.arrived stall).2 = some error ∧
        head.length + (body.arrived stall).1.length < limit := by
  induction body generalizing head with
  | ended after =>
      unfold readPrefixFrom Body.arrived
      dsimp only
      split <;> split <;> simp_all
  | failed after failure =>
      unfold readPrefixFrom Body.arrived
      dsimp only
      split <;> simp_all
  | chunk after bytes rest ih =>
      unfold readPrefixFrom Body.arrived
      dsimp only
      split
      case isTrue hshort =>
        split
        · rw [ih, List.length_append, List.length_append, add_assoc]
        · simpa using fun _ => hshort
      case isFalse hreached =>
        simp only [reduceCtorEq, false_iff, not_and, not_lt]
        intro _
        omega

end Start

section Requests

theorem exists_readPrefix {limit : ℕ} {body : Body E} {read : ReadStart E}
    (hread : readBodyStart limit body = .ok read) :
    ∃ start, readPrefix limit bodyStallTimeout body = .ok start ∧
      read = {
        start
        inspected := if limit < start.head.length then start.head.take limit else start.head } := by
  unfold readBodyStart at hread
  split at hread
  · contradiction
  · next start hstart => exact ⟨start, hstart, (Except.ok.inj hread).symm⟩

/-- The start of a body is read as it arrives: nothing of it is lost or moved, what
the rules see is its first bytes, and only a failure or a stall before the limit keeps
it from being read. -/
theorem body_start_read (limit : ℕ) (body : Body E) :
    (∀ read, readBodyStart limit body = .ok read →
      (∃ chunks, body = read.start.rest.prepend chunks ∧
        read.start.head = chunks.flatMap (·.2)) ∧
      read.start.head ++ read.start.rest.bytes = body.bytes ∧
      (read.start.complete = true ↔ body.bytes.length < limit) ∧
      (read.start.complete = true → ∃ after, read.start.rest = .ended after) ∧
      read.inspected = body.bytes.take limit) ∧
    ∀ response, readBodyStart limit body = .error response ↔
      ∃ error, (body.arrived bodyStallTimeout).2 = some error ∧
        (body.arrived bodyStallTimeout).1.length < limit ∧ response = error.response := by
  constructor
  · intro read hread
    obtain ⟨start, hstart, rfl⟩ := exists_readPrefix hread
    have htaken := taken_of_readPrefixFrom hstart
    refine ⟨htaken.split, htaken.bytes_eq, htaken.complete_iff, ?_, htaken.inspected⟩
    exact fun hcomplete => (htaken.whole hcomplete).2
  · intro response
    unfold readBodyStart
    split
    · next error hstart =>
        obtain ⟨hcut, hshort⟩ := readPrefixFrom_eq_error_iff.mp hstart
        rw [List.length_nil, zero_add] at hshort
        constructor
        · intro heq
          exact ⟨error, hcut, hshort, (Except.error.inj heq).symm⟩
        · rintro ⟨other, hother, -, rfl⟩
          rw [hcut] at hother
          rw [Option.some.inj hother]
    · next start hstart =>
        simp only [reduceCtorEq, false_iff, not_exists, not_and]
        intro error hcut hshort
        have herror : readPrefix limit bodyStallTimeout body = .error error :=
          readPrefixFrom_eq_error_iff.mpr ⟨hcut, by rwa [List.length_nil, zero_add]⟩
        rw [hstart] at herror
        contradiction

/-- A body in chunks, the last of them empty, that never ends. -/
def chunked : Body Unit :=
  .chunk (some 0) [1, 2, 3, 4] (.chunk (some 9) [5, 6, 7] (.chunk (some 0) [] (.ended none)))

theorem body_start_read_of_chunked :
    (∃ read, readBodyStart 6 chunked = .ok read ∧ read.inspected = [1, 2, 3, 4, 5, 6]) ∧
      readBodyStart 8 chunked = .error ⟨408, "The request body stopped arriving".toList⟩ :=
  ⟨⟨_, rfl, ((body_start_read 6 chunked).1 _ rfl).2.2.2.2⟩,
    ((body_start_read 8 chunked).2 _).mpr ⟨.stalled, rfl, by decide, rfl⟩⟩

/-- However the same bytes arrive, the request goes on with the same start. -/
theorem bodyStart_eq_of_bytes_eq {limit : ℕ} {body other : Body E} {read otherRead : ReadStart E}
    (hbytes : body.bytes = other.bytes) (hread : readBodyStart limit body = .ok read)
    (hother : readBodyStart limit other = .ok otherRead) :
    read.bodyStart = otherRead.bodyStart := by
  obtain ⟨start, hstart, rfl⟩ := exists_readPrefix hread
  obtain ⟨otherStart, hotherStart, rfl⟩ := exists_readPrefix hother
  have htaken := taken_of_readPrefixFrom hstart
  have hotherTaken := taken_of_readPrefixFrom hotherStart
  have hcomplete : start.complete = otherStart.complete := by
    rw [Bool.eq_iff_iff, htaken.complete_iff, hotherTaken.complete_iff, hbytes]
  simp only [ReadStart.bodyStart, htaken.inspected, hotherTaken.inspected, hbytes, hcomplete]

end Requests

end EasyWaf.Proxy
