-- The usage that the sender records (sender/main.py: `store_usage_metrics`, on the
-- bytes that `stream_and_accumulate_response` has joined). A stream is cut at each
-- `data:`, and each `[DONE]` is taken out of it, also where the text of an answer has
-- them.
import AristoteDispatcher.Lib.JsonAlike
import AristoteDispatcher.Lib.JsonBytes

open json pytext

namespace aristote_dispatcher.usage

/-- The columns that the usage fills. -/
structure Metric where
  prompt_tokens : Json
  completion_tokens : Json

inductive Exn
  | AttributeError
  deriving DecidableEq, Repr

def dataField : List Char := "data:".toList

def done : List Char := "[DONE]".toList

/-- The `try`: none is any exception in it, which is only logged. -/
def response_data? (response_body : ByteArray) (stream : Bool) : Option Json :=
  if stream then
    (String.fromUTF8? response_body).bind fun text =>
      let decoded_chunks := splitOn dataField text.toList
      match decoded_chunks.getLast? with
      | none => none
      | some last =>
        if strip last ≠ done then loads (String.ofList (replace done [] last))
        else decoded_chunks.dropLast.getLast?.bind fun chunk => loads (String.ofList chunk)
  else (loads_bytes response_body).toOption

/-- `value.get(key, default)`. -/
def get (value : Json) (key : String) (default : Json) : Except Exn Json :=
  match value with
  | .obj members => .ok (getOr members key default)
  | _ => .error .AttributeError

/-- What is read of the response. -/
def usage_of (response_data : Json) : Except Exn Metric := do
  let usage ← get response_data "usage" (.obj [])
  let prompt_tokens ← get usage "prompt_tokens" .null
  let completion_tokens ← get usage "completion_tokens" .null
  return ⟨prompt_tokens, completion_tokens⟩

def store_usage_metrics (response_body : ByteArray) (stream : Bool) : Except Exn Metric :=
  usage_of ((response_data? response_body stream).getD (.obj []))

/-- What `stream_and_accumulate_response` hands over. -/
def full_response_bytes (chunks : List ByteArray) : ByteArray :=
  chunks.foldl (· ++ ·) ByteArray.empty

/-! ## The counts of an answer -/

/-- The value has an integer usage. -/
def Counts (data : Json) (prompt_tokens completion_tokens : Int) : Prop :=
  ∃ members usage, data = .obj members ∧
    members.lookup (.ofString "usage") = some (.obj usage) ∧
    usage.lookup (.ofString "prompt_tokens") = some (.int prompt_tokens) ∧
    usage.lookup (.ofString "completion_tokens") = some (.int completion_tokens)

/-- The text of one JSON object with that usage. -/
def HasUsage (text : String) (prompt_tokens completion_tokens : Int) : Prop :=
  ∃ data, loads text = some data ∧ Counts data prompt_tokens completion_tokens

variable {p c : Int}

theorem lookup_of_getOr {members : List (PyStr × Json)} {key : String} {default v : Json}
    (h : getOr members key default = v) (hne : default ≠ v) :
    members.lookup (.ofString key) = some v := by
  unfold getOr at h
  cases hlookup : members.lookup (.ofString key) with
  | none =>
    rw [hlookup] at h
    exact absurd h hne
  | some w =>
    rw [hlookup] at h
    exact congrArg some h

theorem usage_of_eq_ok_iff {data : Json} :
    usage_of data = .ok ⟨.int p, .int c⟩ ↔ Counts data p c := by
  constructor
  · intro h
    unfold usage_of at h
    cases data with
    | obj members =>
      simp only [get, bind, Except.bind] at h
      cases husage : getOr members "usage" (.obj []) with
      | obj usage =>
        simp only [husage, pure, Except.pure, Except.ok.injEq, Metric.mk.injEq] at h
        obtain ⟨hp, hc⟩ := h
        have hprompt := lookup_of_getOr hp (by simp)
        have hcompletion := lookup_of_getOr hc (by simp)
        refine ⟨members, usage, rfl, ?_, hprompt, hcompletion⟩
        refine lookup_of_getOr husage ?_
        rintro ⟨⟩
        cases hprompt
      | _ => simp [husage] at h
    | _ => cases h
  · rintro ⟨members, usage, rfl, husage, hprompt, hcompletion⟩
    simp [usage_of, get, getOr, husage, hprompt, hcompletion, bind, Except.bind, pure, Except.pure]

/-- The counts are recorded when they are read. -/
theorem recorded_iff {body : ByteArray} {stream : Bool} :
    store_usage_metrics body stream = .ok ⟨.int p, .int c⟩ ↔
      ∃ data, response_data? body stream = some data ∧ Counts data p c := by
  rw [store_usage_metrics, usage_of_eq_ok_iff]
  cases response_data? body stream with
  | none =>
    simp only [Option.getD_none, reduceCtorEq, false_and, exists_false, iff_false]
    rintro ⟨_, _, ⟨⟩, husage, _⟩
    cases husage
  | some data => simp

/-- The counts are in no string. -/
theorem Counts.alike {data data' : Json} (h : Counts data p c) (halike : Alike data data') :
    Counts data' p c := by
  obtain ⟨members, usage, rfl, husage, hprompt, hcompletion⟩ := h
  obtain ⟨members', rfl, hmembers⟩ := halike.members
  obtain ⟨v, husage', hv⟩ := hmembers.lookup husage
  obtain ⟨usage', rfl, hcounts⟩ := hv.members
  obtain ⟨w, hprompt', hw⟩ := hcounts.lookup hprompt
  obtain ⟨u, hcompletion', hu⟩ := hcounts.lookup hcompletion
  rw [hw.int] at hprompt'
  rw [hu.int] at hcompletion'
  exact ⟨members', usage', rfl, husage', hprompt', hcompletion'⟩

/-! ## Where the markers can stand -/

theorem dataField_ne_nil : dataField ≠ [] := by decide

theorem done_ne_nil : done ≠ [] := by decide

theorem unbordered_dataField : Unbordered dataField := by
  have hall : ∀ part ∈ dataField.tails, part ≠ [] → part <+: dataField → part = dataField := by
    decide
  exact fun part hne hprefix hsuffix => hall part ((List.mem_tails _ _).mpr hsuffix) hne hprefix

/-- An atom with a letter of no number and of no name is no value. -/
theorem not_reads_of_foreign {m : Mode} {cs text : List Char} {d : Char}
    (hmem : .atom text ∈ lexFrom m cs) (hd : d ∈ text) (h : Foreign d) : ¬ Reads m cs :=
  fun hreads => hreads _ hmem (atom?_eq_none hd h.alien)

theorem quoted_dataField : Quoted dataField where
  outside := by
    intro m cs hm
    cases hm with
    | idle => exact not_reads_of_foreign List.mem_cons_self (.head _) (.inl rfl)
    | atom text =>
      have hd : 'd' ∈ ('a' :: 't' :: 'a' :: 'd' :: text).reverse := by simp
      exact not_reads_of_foreign List.mem_cons_self hd (.inl rfl)
  inside := by
    intro m cs hm h
    cases hm with
    | str codes => exact ⟨_, h⟩
    | escape codes => exact absurd (List.mem_singleton_self _) h.not_bad
    | hex codes left value =>
      -- `d` and `a` are digits, and `t` is not
      rcases left with _ | _ | _ | left
      · exact absurd (List.mem_singleton_self _) h.tail.tail.not_bad
      · exact ⟨_, h⟩
      · exact ⟨_, h⟩
      · exact absurd (List.mem_singleton_self _) h.tail.tail.not_bad

theorem word_done : Word done where
  plain := by simp [done]
  inside := by
    intro m cs hm h
    have hd : 'D' ∈ ['D', 'O', 'N', 'E'] := .head _
    cases m with
    | idle => exact absurd h (not_reads_of_foreign (.tail _ (.head _)) hd (.inr rfl))
    | atom text =>
      exact absurd h (not_reads_of_foreign (.tail _ (.tail _ (.head _))) hd (.inr rfl))
    | str codes => exact ⟨codes, rfl⟩
    | escape codes => exact absurd (List.mem_singleton_self _) h.not_bad
    | hex codes left value => exact absurd (List.mem_singleton_self _) h.not_bad
    | failed => exact absurd rfl hm

/-- The end of a stream has no quote, no backslash and no `data:`. -/
theorem plain_of_strip {cs : List Char} (h : strip cs = done) :
    ∀ d ∈ cs, d ≠ '"' ∧ d ≠ '\\' ∧ d ≠ 'd' := by
  obtain ⟨left, right, hleft, hright, hcs⟩ := exists_of_strip cs
  have hspace : ∀ d, isspace d = true → d ≠ '"' ∧ d ≠ '\\' ∧ d ≠ 'd' := by
    intro d hd
    refine ⟨?_, ?_, ?_⟩ <;> rintro rfl <;> revert hd <;> decide
  have hdone : ∀ d ∈ done, d ≠ '"' ∧ d ≠ '\\' ∧ d ≠ 'd' := by simp [done]
  rw [h] at hcs
  intro d hd
  rw [hcs, List.mem_append, List.mem_append] at hd
  rcases hd with hd | hd | hd
  · exact hspace d (hleft d hd)
  · exact hdone d hd
  · exact hspace d (hright d hd)

/-- A JSON text is not the end of a stream. -/
theorem strip_ne_of_reads {cs : List Char} (h : Reads .idle cs) : strip cs ≠ done := by
  intro hstrip
  obtain ⟨left, right, hleft, _, hcs⟩ := exists_of_strip cs
  rw [hstrip] at hcs
  rw [hcs] at h
  obtain ⟨m, hm, hdone⟩ := outside_of_isspace hleft .idle h
  exact word_done.quoted.outside hm hdone

/-- Nor is what stands behind a place inside one of its strings. -/
theorem strip_ne_of_string {cs : List Char} {codes : List Nat} (h : Reads (.str codes) cs) :
    strip cs ≠ done := by
  intro hstrip
  have hplain := plain_of_strip hstrip
  exact not_reads_of_plain (fun d hd => ⟨(hplain d hd).1, (hplain d hd).2.1⟩) codes h

theorem splitOn_whole {cs : List Char} (h : ¬ dataField <:+: cs) :
    splitOn dataField cs = [cs] := by
  rcases splitOn_last dataField_ne_nil cs with ⟨_, hwhole⟩ | ⟨before, last, hcs, _⟩
  · exact hwhole
  · exact absurd (occurs_of_place hcs) h

/-! ## Answers -/

/-- What a server answers: one JSON object, or the events of a stream. The blanks and the
ends of the lines belong to the events. -/
inductive Payload
  | object (text : String)
  | events (before : List String) (last finish : String)

def event (data : String) : List Char := dataField ++ data.toList

def Payload.text : Payload → List Char
  | .object text => text.toList
  | .events before last finish => before.flatMap event ++ (event last ++ event finish)

/-- The answer has these counts: its object has them, or the object of its last event. -/
inductive Reports (p c : Int) : Payload → Bool → Prop
  | object {text : String} (stream : Bool) (h : HasUsage text p c) :
    Reports p c (.object text) stream
  | events {before : List String} {last finish : String}
    (hbefore : ∀ data ∈ before, ∃ members, loads data = some (.obj members))
    (hlast : HasUsage last p c) (hfinish : strip finish.toList = done) :
    Reports p c (.events before last finish) true

/-- No marker of a stream stands in the way of the object. A `[DONE]` does only in a key: the
key without it can be one that is read. -/
def Clean (p c : Int) : Payload → Bool → Prop
  | .object _, false => True
  | .object text, true =>
    ¬ dataField <:+: text.toList ∧
      (KeyFree done text.toList ∨ HasUsage (String.ofList (replace done [] text.toList)) p c)
  | .events _ last _, _ => ¬ dataField <:+: last.toList

theorem HasUsage.without_done {text : String} (h : HasUsage text p c)
    (hfree : KeyFree done text.toList) :
    HasUsage (String.ofList (replace done [] text.toList)) p c := by
  obtain ⟨data, hloads, hcounts⟩ := h
  obtain ⟨data', hloads', halike⟩ :=
    loads_alike word_done hloads hfree (cut_replace done_ne_nil text.toList)
  exact ⟨data', hloads', hcounts.alike halike⟩

/-! ## What is recorded -/

/-- A stream gives the text of its last piece, with each `[DONE]` taken out of it. -/
theorem response_data_of_last {cs last : List Char}
    (hlast : (splitOn dataField cs).getLast? = some last) (hne : strip last ≠ done) :
    response_data? (String.ofList cs).toUTF8 true =
      loads (String.ofList (replace done [] last)) := by
  rw [response_data?, if_pos rfl, fromUTF8?_toUTF8, Option.bind_some, String.toList_ofList]
  simp only [hlast]
  exact if_pos hne

/-- Before the end of a stream, it gives the text of the piece before. -/
theorem response_data_of_done {cs last : List Char} {chunks : List (List Char)}
    (hpieces : splitOn dataField cs = chunks ++ [last]) (hdone : strip last = done) :
    response_data? (String.ofList cs).toUTF8 true =
      chunks.getLast?.bind fun chunk => loads (String.ofList chunk) := by
  rw [response_data?, if_pos rfl, fromUTF8?_toUTF8, Option.bind_some, String.toList_ofList,
    hpieces]
  simp only [List.getLast?_concat, List.dropLast_concat]
  exact if_neg (not_not.mpr hdone)

/-- One object that is taken for a stream. -/
theorem object_recorded_iff {text : String} (h : HasUsage text p c) :
    (∃ data, response_data? text.toUTF8 true = some data ∧ Counts data p c) ↔
      Clean p c (.object text) true := by
  have hcut := or_iff_right_of_imp h.without_done
  obtain ⟨data, hloads, _⟩ := h
  have hreads := reads_of_loads hloads
  rw [Clean, hcut]
  have htext : text.toUTF8 = (String.ofList text.toList).toUTF8 := by rw [String.ofList_toList]
  rw [htext]
  rcases splitOn_last dataField_ne_nil text.toList with
    ⟨hno, hwhole⟩ | ⟨before, last, hplace, hlast⟩
  · rw [response_data_of_last (by rw [hwhole]; rfl) (strip_ne_of_reads hreads)]
    exact (and_iff_right hno).symm
  · -- the last piece begins inside a string
    rw [hplace] at hreads
    obtain ⟨codes, hstring⟩ := quoted_dataField.behind (by simp) hreads
    rw [response_data_of_last hlast (strip_ne_of_string hstring),
      loads_behind quoted_dataField word_done.quoted hloads hplace (cut_replace done_ne_nil last)]
    exact iff_of_false (by simp) fun hclean => hclean.1 (occurs_of_place hplace)

/-- The pieces of a stream. -/
theorem splitOn_events (before : List String) (last finish : String)
    (hfinish : strip finish.toList = done) :
    ∃ chunks, splitOn dataField (Payload.events before last finish).text =
      (chunks ++ splitOn dataField last.toList) ++ [finish.toList] := by
  have hend : splitOn dataField finish.toList = [finish.toList] := by
    refine splitOn_whole fun hfound => ?_
    exact (plain_of_strip hfinish 'd' (hfound.subset (.head _))).2.2 rfl
  refine ⟨splitOn dataField (before.flatMap event), ?_⟩
  rw [Payload.text, event, event, List.append_assoc dataField,
    splitOn_append dataField_ne_nil unbordered_dataField,
    splitOn_append dataField_ne_nil unbordered_dataField, hend, List.append_assoc]

theorem events_recorded_iff {before : List String} {last finish : String}
    (hlast : HasUsage last p c) (hfinish : strip finish.toList = done) :
    (∃ data, response_data? (String.ofList (Payload.events before last finish).text).toUTF8 true =
        some data ∧ Counts data p c) ↔
      Clean p c (.events before last finish) true := by
  obtain ⟨data, hloads, hcounts⟩ := hlast
  obtain ⟨chunks, hpieces⟩ := splitOn_events before last finish hfinish
  rw [response_data_of_done hpieces hfinish, List.getLast?_append]
  rcases splitOn_last dataField_ne_nil last.toList with
    ⟨hno, hwhole⟩ | ⟨front, rest, hplace, hrest⟩
  · have hread : (((splitOn dataField last.toList).getLast?.or chunks.getLast?).bind
        fun chunk => loads (String.ofList chunk)) = some data := by
      simp [hwhole, hloads]
    rw [hread]
    exact iff_of_true ⟨data, rfl, hcounts⟩ hno
  · -- the last piece begins inside a string
    have hread : (((splitOn dataField last.toList).getLast?.or chunks.getLast?).bind
        fun chunk => loads (String.ofList chunk)) = none := by
      rw [hrest]
      exact loads_behind quoted_dataField word_done.quoted hloads hplace (.refl rest)
    rw [hread]
    exact iff_of_false (by simp) fun hclean => hclean (occurs_of_place hplace)

/-- The counts of an answer are recorded exactly when no marker stands in the way. -/
theorem usage_is_recorded_iff_no_marker_hides_it (payload : Payload) (stream : Bool)
    (chunks : List ByteArray) (h : Reports p c payload stream)
    (hbody : full_response_bytes chunks = (String.ofList payload.text).toUTF8) :
    store_usage_metrics (full_response_bytes chunks) stream = .ok ⟨.int p, .int c⟩ ↔
      Clean p c payload stream := by
  rw [recorded_iff, hbody]
  cases h with
  | @object text stream husage =>
    rw [Payload.text, String.ofList_toList]
    cases stream with
    | true => exact object_recorded_iff husage
    | false =>
      obtain ⟨data, hloads, hcounts⟩ := husage
      refine iff_of_true ⟨data, ?_, hcounts⟩ trivial
      rw [response_data?, if_neg (by decide), loads_bytes_toUTF8 hloads]
      rfl
  | events _ hlast hfinish => exact events_recorded_iff hlast hfinish

/-- An object with three and five tokens, and a text in it. -/
def answerText (text : String) : String :=
  "\x7b\"usage\": \x7b\"prompt_tokens\": 3, \"completion_tokens\": 5\x7d, \"t\": \"" ++
    text ++ "\"\x7d"

set_option maxRecDepth 10000 in
theorem hasUsage_dataField : HasUsage (answerText "data: 1") 3 5 :=
  ⟨_, rfl, _, _, rfl, rfl, rfl, rfl⟩

/-- A stream of three events, of which the last one has the usage. -/
def helloStream : Payload :=
  .events ["\x7b\"t\": \"hel\"\x7d\n\n", "\x7b\"t\": \"lo\"\x7d\n\n"]
    (answerText "hello" ++ "\n\n") " [DONE]\n\n"

set_option maxRecDepth 10000 in
theorem reports_helloStream : Reports 3 5 helloStream true := by
  refine .events ?_ ⟨_, rfl, _, _, rfl, rfl, rfl, rfl⟩ (by decide)
  simp only [List.forall_mem_cons]
  exact ⟨⟨_, rfl⟩, ⟨_, rfl⟩, by simp⟩

set_option maxRecDepth 10000 in
theorem clean_helloStream : Clean 3 5 helloStream true := by
  rw [helloStream, Clean]
  decide

/-- Its bytes come in two pieces, the first of which ends within an event. -/
def helloChunks : List ByteArray :=
  [(String.ofList (helloStream.text.take 20)).toUTF8,
    (String.ofList (helloStream.text.drop 20)).toUTF8]

theorem the_usage_of_a_stream_of_events_is_recorded :
    store_usage_metrics (full_response_bytes helloChunks) true = .ok ⟨.int 3, .int 5⟩ :=
  (usage_is_recorded_iff_no_marker_hides_it helloStream true _ reports_helloStream
    (by decide +kernel)).mpr clean_helloStream

set_option maxRecDepth 10000 in
/-- The text of an answer has `data:` in it. -/
theorem not_every_usage_is_recorded :
    ¬ ∀ (p c : Int) (payload : Payload) (stream : Bool) (chunks : List ByteArray),
      Reports p c payload stream →
      full_response_bytes chunks = (String.ofList payload.text).toUTF8 →
      store_usage_metrics (full_response_bytes chunks) stream = .ok ⟨.int p, .int c⟩ := by
  intro h
  have hbody : full_response_bytes [(answerText "data: 1").toUTF8] =
      (String.ofList (Payload.object (answerText "data: 1")).text).toUTF8 := by
    simp [full_response_bytes, Payload.text]
  have hrecorded := h 3 5 (.object (answerText "data: 1")) true [(answerText "data: 1").toUTF8]
    (.object true hasUsage_dataField) hbody
  rw [recorded_iff, hbody, Payload.text, String.ofList_toList] at hrecorded
  obtain ⟨hno, _⟩ := (object_recorded_iff hasUsage_dataField).mp hrecorded
  exact hno (by decide)

end aristote_dispatcher.usage
