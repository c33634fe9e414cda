import EasyWaf.Modules.Conditions

/-!
# Shared request parts are transparent

Whatever rules were evaluated before over one `Parts`, a condition is answered as
over a new one.
-/

namespace EasyWaf.Modules

open EasyWaf.Core Http Paths ZoneText

namespace Source

variable (source : Source) (whole : Whole)

section Fresh

/-- The arguments, and a multipart body's with them. -/
def argsOf : List Value :=
  argValues source.engine source.ctx source.body
    (match bodyKind source.ctx.headers with
    | some (.multipart _) => (multipartValues source.engine source.ctx source.body).1
    | _ => [])

def requestOf : List Text :=
  requestForms source.body (requestLineForms source.ctx) (blockForms source.ctx)

/-- The forms a visitor of values is handed. -/
def valueForms (parsed : Bool) (list : List Value) : List Text :=
  list.flatMap fun value => if parsed then value.parsed.toList else value.value

def nameForms (parsed : Bool) (list : List Value) : List Text :=
  list.flatMap fun value => if parsed then [value.parsedName] else value.name

def textForms (parsed : Bool) (forms : List Text) : List Text :=
  if parsed then forms.head?.toList else forms

/-- What a visitor of a targeted zone is handed, in order. -/
def visited : Target → List Target → Bool → List Text
  | .path, _, parsed =>
      if parsed then [percentDecode source.ctx.path]
      else textForms parsed (pathForms source.ctx source.url)
  | .arg name, except, parsed => valueForms parsed (source.chosen except (.arg name) source.argsOf)
  | .argName name, except, parsed =>
      nameForms parsed (source.chosen except (.argName name) source.argsOf)
  | .header name, except, parsed =>
      valueForms parsed (source.chosen except (.header name) (headerValues source.ctx))
  | .headerName name, except, parsed =>
      nameForms parsed (source.chosen except (.headerName name) (headerValues source.ctx))
  | .cookie name, except, parsed =>
      valueForms parsed
        (source.chosen except (.cookie name) (cookieValues source.engine source.ctx))
  | .cookieName name, except, parsed =>
      nameForms parsed
        (source.chosen except (.cookieName name) (cookieValues source.engine source.ctx))
  | .method, _, _ => [source.ctx.method]
  | .xml, _, parsed => textForms parsed (xmlValues source.engine source.ctx source.body).1
  | .xmlAttr, except, parsed =>
      valueForms parsed
        (source.chosen except .xmlAttr (xmlValues source.engine source.ctx source.body).2)
  | .fileName, except, parsed =>
      valueForms parsed
        (source.chosen except .fileName (multipartValues source.engine source.ctx source.body).2)
  | .headerBlock, _, parsed => textForms parsed (blockForms source.ctx)
  | .requestLine, _, parsed => textForms parsed (requestLineForms source.ctx)
  | .protocol, _, _ => [protocol source.ctx.version]
  | .bodyUnparsed, _, parsed => textForms parsed (unparsedForms source.ctx source.body)
  | .headerLine, _, parsed => (lineForms source.ctx).flatMap (textForms parsed)
  | .basename, _, parsed =>
      if parsed then [lastSegment (percentDecode source.ctx.path)]
      else zoneText (lastSegment source.ctx.path) false
  | .request, _, parsed => textForms parsed source.requestOf
  | .count inner, except, _ => [Text.formatNat (visited inner except true).length]
  | .matched, _, _ => []
  | .except _, _, _ => []
  | .url, _, _ => []
  | .args, _, _ => []
  | .body, _, _ => []
  | .headers, _, _ => []
  | .any, _, _ => []

/-- The forms of any zone. -/
def formsRead (target : Target) (except : List Target) (parsed : Bool) : List Text :=
  match target with
  | .url => allForms parsed whole.url
  | .args => allForms parsed whole.args
  | .body => allForms parsed whole.body
  | .headers => allForms parsed whole.headers
  | .any => [whole.url, whole.args, whole.body, whole.headers].flatMap (allForms parsed)
  | other => source.visited other except parsed

/-- The forms of a zone with a chain of decodings applied. -/
def decodedForms (key : DecodedKey) : List Text :=
  (source.formsRead whole key.1 key.2.1 (startsParsed key.2.2)).flatMap
    (Transform.applyAll source.engine key.2.2)

end Fresh

/-- Nothing is held but what the request gives. -/
structure Sound (shared : Parts) : Prop where
  path : ∀ found ∈ shared.path, found = pathForms source.ctx source.url
  args : ∀ found ∈ shared.args, found = source.argsOf
  headers : ∀ found ∈ shared.headers, found = headerValues source.ctx
  cookies : ∀ found ∈ shared.cookies, found = cookieValues source.engine source.ctx
  xml : ∀ found ∈ shared.xml, found = xmlValues source.engine source.ctx source.body
  parts : ∀ found ∈ shared.parts, found = multipartValues source.engine source.ctx source.body
  block : ∀ found ∈ shared.block, found = blockForms source.ctx
  line : ∀ found ∈ shared.line, found = requestLineForms source.ctx
  unparsed : ∀ found ∈ shared.unparsed, found = unparsedForms source.ctx source.body
  lines : ∀ found ∈ shared.lines, found = lineForms source.ctx
  request : ∀ found ∈ shared.request, found = source.requestOf
  decoded : ∀ entry ∈ shared.decoded, entry.2 = source.decodedForms whole entry.1

theorem sound_new : source.Sound whole Parts.new := by
  constructor <;> simp [Parts.new]

section Accessors

variable {source whole}

theorem transparent_readPath :
    Transparent (source.Sound whole) source.readPath (pathForms source.ctx source.url) :=
  Cell.Holds.getOrInit ⟨fun _ hsound => hsound.path, fun _ hsound => { hsound with
    path := fun _ hfound => (Option.some.inj hfound).symm }⟩ (Transparent.pure _)

theorem transparent_readHeaders :
    Transparent (source.Sound whole) source.readHeaders (headerValues source.ctx) :=
  Cell.Holds.getOrInit ⟨fun _ hsound => hsound.headers, fun _ hsound => { hsound with
    headers := fun _ hfound => (Option.some.inj hfound).symm }⟩ (Transparent.pure _)

theorem transparent_readCookies :
    Transparent (source.Sound whole) source.readCookies
      (cookieValues source.engine source.ctx) :=
  Cell.Holds.getOrInit ⟨fun _ hsound => hsound.cookies, fun _ hsound => { hsound with
    cookies := fun _ hfound => (Option.some.inj hfound).symm }⟩ (Transparent.pure _)

theorem transparent_readXml :
    Transparent (source.Sound whole) source.readXml
      (xmlValues source.engine source.ctx source.body) :=
  Cell.Holds.getOrInit ⟨fun _ hsound => hsound.xml, fun _ hsound => { hsound with
    xml := fun _ hfound => (Option.some.inj hfound).symm }⟩ (Transparent.pure _)

theorem transparent_readMultipart :
    Transparent (source.Sound whole) source.readMultipart
      (multipartValues source.engine source.ctx source.body) :=
  Cell.Holds.getOrInit ⟨fun _ hsound => hsound.parts, fun _ hsound => { hsound with
    parts := fun _ hfound => (Option.some.inj hfound).symm }⟩ (Transparent.pure _)

theorem transparent_readBlock :
    Transparent (source.Sound whole) source.readBlock (blockForms source.ctx) :=
  Cell.Holds.getOrInit ⟨fun _ hsound => hsound.block, fun _ hsound => { hsound with
    block := fun _ hfound => (Option.some.inj hfound).symm }⟩ (Transparent.pure _)

theorem transparent_readLine :
    Transparent (source.Sound whole) source.readLine (requestLineForms source.ctx) :=
  Cell.Holds.getOrInit ⟨fun _ hsound => hsound.line, fun _ hsound => { hsound with
    line := fun _ hfound => (Option.some.inj hfound).symm }⟩ (Transparent.pure _)

theorem transparent_readUnparsed :
    Transparent (source.Sound whole) source.readUnparsed
      (unparsedForms source.ctx source.body) :=
  Cell.Holds.getOrInit ⟨fun _ hsound => hsound.unparsed, fun _ hsound => { hsound with
    unparsed := fun _ hfound => (Option.some.inj hfound).symm }⟩ (Transparent.pure _)

theorem transparent_readLines :
    Transparent (source.Sound whole) source.readLines (lineForms source.ctx) :=
  Cell.Holds.getOrInit ⟨fun _ hsound => hsound.lines, fun _ hsound => { hsound with
    lines := fun _ hfound => (Option.some.inj hfound).symm }⟩ (Transparent.pure _)

theorem transparent_readArgs :
    Transparent (source.Sound whole) source.readArgs source.argsOf := by
  apply Cell.Holds.getOrInit ⟨fun _ hsound => hsound.args, fun _ hsound => { hsound with
    args := fun _ hfound => (Option.some.inj hfound).symm }⟩
  rw [argsOf]
  cases bodyKind source.ctx.headers with
  | none => exact Transparent.pure _
  | some kind =>
      cases kind with
      | multipart boundary => exact transparent_readMultipart.bind (Transparent.pure _)
      | form | json | xml => exact Transparent.pure _

theorem transparent_readRequest :
    Transparent (source.Sound whole) source.readRequest source.requestOf :=
  Cell.Holds.getOrInit ⟨fun _ hsound => hsound.request, fun _ hsound => { hsound with
    request := fun _ hfound => (Option.some.inj hfound).symm }⟩
    (transparent_readLine.bind (transparent_readBlock.bind (Transparent.pure _)))

end Accessors

section Any

variable {source whole} {τ : Type} (parsed : Bool) (isMatch : Text → StateM τ Bool)

theorem visitValues_eq (list : List Value) :
    visitValues parsed isMatch list = (valueForms parsed list).anyM isMatch := by
  rw [valueForms, anyM_flatMap, visitValues]
  congr
  funext value
  cases parsed with
  | false => rfl
  | true =>
      cases value.parsed with
      | none => rfl
      | some text => exact (anyM_singleton isMatch text).symm

theorem visitNames_eq (list : List Value) :
    visitNames parsed isMatch list = (nameForms parsed list).anyM isMatch := by
  rw [nameForms, anyM_flatMap, visitNames]
  congr
  funext value
  cases parsed with
  | false => rfl
  | true => exact (anyM_singleton isMatch value.parsedName).symm

theorem visitText_eq (forms : List Text) :
    visitText parsed isMatch forms = (textForms parsed forms).anyM isMatch := by
  cases parsed with
  | false => rfl
  | true =>
      cases forms with
      | nil => rfl
      | cons form rest => exact (anyM_singleton isMatch form).symm

theorem visits_values (list : List Value) :
    Visits (source.Sound whole) (visit (visitValues parsed isMatch list))
      ((valueForms parsed list).anyM isMatch) := by
  rw [visitValues_eq]
  exact visits_visit _

theorem visits_names (list : List Value) :
    Visits (source.Sound whole) (visit (visitNames parsed isMatch list))
      ((nameForms parsed list).anyM isMatch) := by
  rw [visitNames_eq]
  exact visits_visit _

theorem visits_text (forms : List Text) :
    Visits (source.Sound whole) (visit (visitText parsed isMatch forms))
      ((textForms parsed forms).anyM isMatch) := by
  rw [visitText_eq]
  exact visits_visit _

theorem visits_one (form : Text) :
    Visits (source.Sound whole) (visit (isMatch form)) ([form].anyM isMatch) := by
  rw [anyM_singleton]
  exact visits_visit _

/-- A visitor of a zone is handed the zone's forms, in order, until it stops. -/
theorem visits_any (target : Target) (except : List Target) :
    Visits (source.Sound whole) (source.any target except parsed isMatch)
      ((source.visited target except parsed).anyM isMatch) := by
  induction target generalizing τ parsed with
  | path =>
      rw [any, visited]
      split
      · exact visits_one isMatch _
      · exact transparent_readPath.visits (visits_text parsed isMatch _)
  | arg name => exact transparent_readArgs.visits (visits_values parsed isMatch _)
  | argName name => exact transparent_readArgs.visits (visits_names parsed isMatch _)
  | header name => exact transparent_readHeaders.visits (visits_values parsed isMatch _)
  | headerName name => exact transparent_readHeaders.visits (visits_names parsed isMatch _)
  | cookie name => exact transparent_readCookies.visits (visits_values parsed isMatch _)
  | cookieName name => exact transparent_readCookies.visits (visits_names parsed isMatch _)
  | method => exact visits_one isMatch _
  | xml => exact transparent_readXml.visits (visits_text parsed isMatch _)
  | xmlAttr => exact transparent_readXml.visits (visits_values parsed isMatch _)
  | fileName => exact transparent_readMultipart.visits (visits_values parsed isMatch _)
  | headerBlock => exact transparent_readBlock.visits (visits_text parsed isMatch _)
  | requestLine => exact transparent_readLine.visits (visits_text parsed isMatch _)
  | protocol => exact visits_one isMatch _
  | bodyUnparsed => exact transparent_readUnparsed.visits (visits_text parsed isMatch _)
  | headerLine =>
      rw [visited, anyM_flatMap]
      apply transparent_readLines.visits
      have hlines : (fun forms => (textForms parsed forms).anyM isMatch) =
          visitText parsed isMatch := by
        funext forms
        exact (visitText_eq parsed isMatch forms).symm
      rw [hlines]
      exact visits_visit _
  | basename =>
      rw [any, visited]
      split
      · exact visits_one isMatch _
      · exact visits_visit _
  | request => exact transparent_readRequest.visits (visits_text parsed isMatch _)
  | count inner ih =>
      -- the zone counted is visited to its end
      have hcounted := ih true counting 0
      rw [show ((source.visited inner except true).anyM counting).run 0 =
        (false, 0 + (source.visited inner except true).length) from anyM_count _ 0,
        Nat.zero_add] at hcounted
      exact hcounted.visits (visits_one isMatch _)
  | matched | except _ | url | args | body | headers | any => exact visits_visit (return false)

/-- What a visitor that keeps everything is left with. -/
theorem transparent_collected (target : Target) (except : List Target) :
    Transparent (source.Sound whole)
      (Prod.snd <$> (source.any target except parsed collecting).run [])
      (source.visited target except parsed) := by
  have hvisits : Visits (source.Sound whole) _ _ := visits_any parsed collecting target except
  have hcollected := hvisits []
  rw [show ((source.visited target except parsed).anyM collecting).run [] =
    (false, [] ++ source.visited target except parsed) from anyM_collect _ [],
    List.nil_append] at hcollected
  exact hcollected.map Prod.snd

/-- Whether a visitor that asks a pattern stops. -/
theorem transparent_asked (target : Target) (except : List Target) (isMatch : Text → Bool) :
    Transparent (source.Sound whole)
      (Prod.fst <$> (source.any target except parsed
        fun form => (return isMatch form : StateM Unit Bool)).run ())
      ((source.visited target except parsed).any isMatch) := by
  have hvisits : Visits (source.Sound whole) _ _ :=
    visits_any parsed (fun form => (return isMatch form : StateM Unit Bool)) target except
  have hasked := hvisits ()
  rw [List.anyM_pure] at hasked
  exact hasked.map Prod.fst

end Any

section Forms

variable {source whole}

theorem transparent_formsOf (target : Target) (except : List Target) (parsed : Bool) :
    Transparent (source.Sound whole) (source.formsOf whole target except parsed)
      (source.formsRead whole target except parsed) := by
  cases target <;> first
    | exact Transparent.pure _
    | exact transparent_collected parsed _ except

theorem holds_decodedMemo :
    decodedMemo.Holds (source.Sound whole) (source.decodedForms whole) where
  held _ hsound := hsound.decoded
  pushed shared key hsound := { hsound with
    decoded := fun entry hentry => by
      rcases List.mem_append.mp hentry with hentry | hentry
      · exact hsound.decoded entry hentry
      · obtain rfl := List.mem_singleton.mp hentry
        rfl }

/-- What is kept under a zone, exceptions and a chain is what they make. -/
theorem transparent_decoded (target : Target) (except : List Target) (chain : List Transform)
    {forms : StateM Parts (List Text)}
    (hforms : Transparent (source.Sound whole) forms
      (source.formsRead whole target except (startsParsed chain))) :
    Transparent (source.Sound whole) (source.decoded (target, except, chain) forms)
      (source.decodedForms whole (target, except, chain)) :=
  holds_decodedMemo.lookupOrMake (hforms.bind (Transparent.pure _))

end Forms

section Conditions

/-- The forms of a zone, after the chain. -/
def chainFormsOf (target : Target) (except : List Target) (chain : List Transform) : List Text :=
  if chain = [] then source.formsRead whole target except false
  else source.decodedForms whole (target, except, chain)

/-- The forms a condition's zones are matched in. -/
def conditionForms (targets : List Target) (chain : List Transform) : List Text :=
  (readTargets targets).flatMap fun target =>
    source.chainFormsOf whole target (exceptions targets) chain

/-- `all_hold`, on what the request gives. -/
def holdFrom : Option (List Text) → List CompiledCondition → Bool
  | _, [] => true
  | matched, condition :: rest =>
      let passesOn := rest.head?.any fun next => next.targets = [.matched]
      let forms := source.conditionForms whole condition.targets condition.chain
      if condition.targets = [.matched] then
        match matched with
        | none => false
        | some before =>
            let kept := (before.flatMap
              (Transform.applyAll source.engine (ownDecodings condition.chain))).filter
                fun value => condition.isMatch value != condition.negate
            if kept = [] then false else holdFrom (some kept) rest
      else if passesOn then
        if condition.negate then false
        else
          let hits := forms.filter condition.isMatch
          if hits = [] then false else holdFrom (some hits) rest
      else if forms.any condition.isMatch = condition.negate then false
      else holdFrom matched rest

variable {source whole}

theorem transparent_chainForms (target : Target) (except : List Target) (chain : List Transform) :
    Transparent (source.Sound whole) (source.chainForms whole target except chain)
      (source.chainFormsOf whole target except chain) := by
  rw [chainFormsOf]
  split
  · rename_i hchain
    subst hchain
    exact (transparent_formsOf target except false).bind (Transparent.pure _)
  · rename_i hchain
    apply (transparent_formsOf target except (startsParsed chain)).bind
    rw [if_neg hchain]
    exact transparent_decoded target except chain (Transparent.pure _)

theorem transparent_matching (targets : List Target) (isMatch : Text → Bool)
    (chain : List Transform) :
    Transparent (source.Sound whole) (source.matching whole targets isMatch chain)
      ((source.conditionForms whole targets chain).filter isMatch) := by
  rw [conditionForms, List.flatMap_def]
  exact (Transparent.mapM fun target _ => transparent_chainForms target _ chain).bind
    (Transparent.pure _)

theorem transparent_reads (targets : List Target) (isMatch : Text → Bool)
    (chain : List Transform) :
    Transparent (source.Sound whole) (source.reads whole targets isMatch chain)
      ((source.conditionForms whole targets chain).any isMatch) := by
  rw [conditionForms, List.any_flatMap, reads]
  split
  · rename_i hchain
    apply Transparent.anyM
    intro target _
    rw [chainFormsOf, if_neg hchain]
    exact (transparent_decoded target _ chain (transparent_formsOf target _ _)).bind
      (Transparent.pure _)
  · rename_i hchain
    obtain rfl : chain = [] := not_not.mp hchain
    apply Transparent.anyM
    intro target _
    rw [chainFormsOf, if_pos rfl]
    cases target <;> first
      | exact Transparent.pure _
      | exact transparent_asked false _ _ isMatch
      | exact (by simpa [formsRead, allForms, Bool.or_assoc] using Transparent.pure _)

theorem transparent_allHoldFrom (matched : Option (List Text))
    (conditions : List CompiledCondition) :
    Transparent (source.Sound whole) (source.allHoldFrom whole matched conditions)
      (source.holdFrom whole matched conditions) := by
  induction conditions generalizing matched with
  | nil => exact Transparent.pure _
  | cons condition rest ih =>
      rw [allHoldFrom.eq_def, holdFrom.eq_def]
      dsimp only
      by_cases hmatched : condition.targets = [.matched]
      · rw [if_pos hmatched, if_pos hmatched]
        cases matched with
        | none => exact Transparent.pure _
        | some before => exact Transparent.ite (Transparent.pure _) (ih _)
      · rw [if_neg hmatched, if_neg hmatched]
        apply Transparent.ite
        · apply Transparent.ite (Transparent.pure _)
          exact (transparent_matching _ _ _).bind (Transparent.ite (Transparent.pure _) (ih _))
        · exact (transparent_reads _ _ _).bind (Transparent.ite (Transparent.pure _) (ih _))

theorem transparent_allHold (conditions : List CompiledCondition) :
    Transparent (source.Sound whole) (source.allHold whole conditions)
      (source.holdFrom whole none conditions) :=
  transparent_allHoldFrom none conditions

end Conditions

theorem transparent_evaluate (rules : List (List CompiledCondition)) :
    Transparent (source.Sound whole) (source.evaluate whole rules)
      (rules.map (source.holdFrom whole none)) :=
  Transparent.mapM fun conditions _ => transparent_allHold conditions

theorem sound_partsAfter (rules : List (List CompiledCondition)) :
    source.Sound whole (source.partsAfter whole rules) :=
  (transparent_evaluate source whole rules Parts.new (source.sound_new whole)).2

/-- An answer no rule before changes: the one over a new `Parts`. -/
theorem run_partsAfter {α : Type} {action : StateM Parts α} {value : α}
    (haction : Transparent (source.Sound whole) action value)
    (rules : List (List CompiledCondition)) :
    (action.run (source.partsAfter whole rules)).1 = (action.run Parts.new).1 := by
  rw [(haction _ (source.sound_partsAfter whole rules)).1,
    (haction _ (source.sound_new whole)).1]

/-- The fast reader says yes exactly where the collecting one has something to
show, whatever rules have used the `Parts` before. -/
theorem reads_iff_matching (rules : List (List CompiledCondition)) (targets : List Target)
    (isMatch : Text → Bool) (chain : List Transform) :
    ((source.reads whole targets isMatch chain).run (source.partsAfter whole rules)).1 = true ↔
      ((source.matching whole targets isMatch chain).run (source.partsAfter whole rules)).1 ≠ [] := by
  have hsound := source.sound_partsAfter whole rules
  rw [(transparent_reads targets isMatch chain _ hsound).1,
    (transparent_matching targets isMatch chain _ hsound).1, List.any_eq_true, Ne,
    List.filter_eq_nil_iff]
  simp

/-- What a condition is told after any rules is what it is told over a new
`Parts`: whether it holds and with it the rule, what it matches, and what the
cache has for any zone, exceptions and decodings. -/
theorem shared_parts_are_transparent (rules : List (List CompiledCondition)) :
    ((source.evaluate whole rules).run Parts.new).1 =
        rules.map (fun conditions => ((source.allHold whole conditions).run Parts.new).1) ∧
      (∀ conditions,
        ((source.allHold whole conditions).run (source.partsAfter whole rules)).1 =
          ((source.allHold whole conditions).run Parts.new).1) ∧
      (∀ targets isMatch chain,
        ((source.reads whole targets isMatch chain).run (source.partsAfter whole rules)).1 =
            ((source.reads whole targets isMatch chain).run Parts.new).1 ∧
          ((source.matching whole targets isMatch chain).run (source.partsAfter whole rules)).1 =
            ((source.matching whole targets isMatch chain).run Parts.new).1) ∧
      ∀ target except chain,
        let forms := source.formsOf whole target except (startsParsed chain)
        ((source.decoded (target, except, chain) forms).run (source.partsAfter whole rules)).1 =
          ((source.decoded (target, except, chain) forms).run Parts.new).1 := by
  refine ⟨?_, fun conditions => ?_, fun targets isMatch chain => ⟨?_, ?_⟩,
    fun target except chain => ?_⟩
  · rw [(transparent_evaluate source whole rules _ (source.sound_new whole)).1]
    apply List.map_congr_left
    intro conditions _
    exact ((transparent_allHold conditions _ (source.sound_new whole)).1).symm
  · exact source.run_partsAfter whole (transparent_allHold conditions) rules
  · exact source.run_partsAfter whole (transparent_reads targets isMatch chain) rules
  · exact source.run_partsAfter whole (transparent_matching targets isMatch chain) rules
  · exact source.run_partsAfter whole
      (transparent_decoded target except chain (transparent_formsOf target except _)) rules

end Source

end EasyWaf.Modules
