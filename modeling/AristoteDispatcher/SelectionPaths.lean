-- The two choices of least busy: `choose_server`, over the servers of the last
-- update, and `choose_among_duplicates`, over those of one organization. Both give
-- the servers of the least score, but not the same way to a server without one.
import AristoteDispatcher.Candidates

open pydict pyfloat
open aristote_dispatcher.settings aristote_dispatcher.histogram
open aristote_dispatcher.metrics_tracker aristote_dispatcher.strategy

namespace aristote_dispatcher.rpc_server

variable {s : LeastBusy}

/-! ## What the draws can give -/

theorem choice_possible {α : Type*} {xs : List α} {x : α} :
    (∃ random, choice xs random = .ok x) ↔ x ∈ xs := by
  constructor
  · rintro ⟨random, h⟩
    exact mem_of_choice h
  · intro h
    obtain ⟨i, hi, rfl⟩ := List.mem_iff_getElem.mp h
    refine ⟨i, ?_⟩
    unfold choice
    rw [Nat.mod_eq_of_lt hi, List.getElem?_eq_getElem hi]

theorem mem_scores {scores : Dict String PyFloat} {v : PyFloat} :
    v ∈ scores.items.map (·.2) ↔ ∃ url, scores.lookup url = some v := by
  rw [List.mem_map]
  constructor
  · rintro ⟨⟨url, w⟩, he, rfl⟩
    exact ⟨url, Dict.mem_items_iff_lookup.mp he⟩
  · rintro ⟨url, h⟩
    exact ⟨(url, v), Dict.mem_items_iff_lookup.mpr h, rfl⟩

theorem eq_of_pyfloat_eq {v w : PyFloat} (h : v.eq w = true) : v = w :=
  of_decide_eq_true (Bool.and_eq_true_iff.mp h).2

/-- `least_busy` can give each url of the least score, and no other. -/
theorem least_busy_possible {scores : Dict String PyFloat} (hn : NoNan scores) {url : String}
    {v : PyFloat} :
    (∃ random, least_busy scores random = .ok (url, v)) ↔
      scores.lookup url = some v ∧ ∀ other w, scores.lookup other = some w → w.lt v = false := by
  have hvalues : ∀ w ∈ scores.items.map (·.2), w ≠ .nan := by
    intro w hw
    obtain ⟨other, hother⟩ := mem_scores.mp hw
    exact hn other w hother
  constructor
  · rintro ⟨random, h⟩
    unfold least_busy at h
    split at h
    · cases h
    · rename_i min_value hmin
      split at h
      · cases h
      · rename_i hc
        cases h
        obtain ⟨⟨k, w⟩, he, rfl⟩ := List.mem_map.mp (mem_of_choice hc)
        obtain ⟨hitem, heq⟩ := List.mem_filter.mp he
        obtain rfl : w = v := eq_of_pyfloat_eq heq
        refine ⟨Dict.mem_items_iff_lookup.mp hitem, fun other u hu => ?_⟩
        exact minimum_le hvalues hmin u (mem_scores.mpr ⟨other, hu⟩)
  · rintro ⟨hurl, hleast⟩
    have hmin : minimum (scores.items.map (·.2)) = some v := by
      refine (minimum_eq_some_iff hvalues).mpr ⟨mem_scores.mpr ⟨url, hurl⟩, fun w hw => ?_⟩
      obtain ⟨other, hother⟩ := mem_scores.mp hw
      exact hleast other w hother
    have hmem : url ∈ (scores.items.filter fun e => e.2.eq v).map (·.1) :=
      List.mem_map.mpr ⟨(url, v), List.mem_filter.mpr ⟨Dict.mem_items_iff_lookup.mpr hurl,
        eq_self_of_ne_nan (hn url v hurl)⟩, rfl⟩
    obtain ⟨random, hc⟩ := choice_possible.mpr hmem
    refine ⟨random, ?_⟩
    unfold least_busy
    rw [hmin]
    simp only [hc]

/-- A numeric indicator is a least score. -/
theorem leastBusyUrl_some {acc : Dict String PyFloat × Option String} {random : Nat}
    {url : Option String} {v : PyFloat} (h : leastBusyUrl random acc = .ok (url, some v)) :
    ∃ least, least_busy acc.1 random = .ok (least, v) := by
  unfold leastBusyUrl at h
  split at h
  split at h
  · split at h
    · cases h
    · rename_i hl
      cases h
      exact ⟨_, hl⟩
  · cases h

/-- What `choose_server` ran through when it gives a server. -/
theorem choose_server_ok {random : Nat} {server : VLLMServer} {indicator : Option PyFloat}
    (h : s.choose_server random = .ok (server, indicator)) :
    ∃ acc url, s.tracker.urls.foldlM s.scoreUrl (∅, none) = .ok acc ∧
      leastBusyUrl random acc = .ok (url, indicator) ∧
      s.servers.find? (fun server => some server.url = url) = some server := by
  unfold LeastBusy.choose_server at h
  cases hacc : s.tracker.urls.foldlM s.scoreUrl (∅, none) with
  | error e =>
    rw [hacc] at h
    cases h
  | ok acc =>
    simp only [hacc, bind, Except.bind] at h
    cases hurl : leastBusyUrl random acc with
    | error e =>
      rw [hurl] at h
      cases h
    | ok r =>
      simp only [hurl] at h
      split at h
      · rename_i hf
        cases h
        exact ⟨acc, r.1, rfl, hurl, hf⟩
      · cases h

/-! ## The loop over the urls -/

/-- The score of a url, where it is defined. -/
def scoreOf (s : LeastBusy) (url : String) : PyFloat := (s.get_server_score url).toOption.getD .nan

theorem scoreOf_eq {url : String} {v : PyFloat} (h : s.get_server_score url = .ok v) :
    scoreOf s url = v := by
  simp [scoreOf, h, Except.toOption]

/-- The last of the urls without requests. -/
def lastIdle (s : LeastBusy) (urls : List String) : Option String :=
  (urls.filter fun url => (scoreOf s url).eq (.fin (-1))).getLast?

theorem lastIdle_cons (s : LeastBusy) (url : String) (urls : List String) (found : Option String) :
    (lastIdle s (url :: urls)).or found =
      (lastIdle s urls).or (if (scoreOf s url).eq (.fin (-1)) then some url else found) := by
  unfold lastIdle
  rw [List.filter_cons]
  split
  · rw [List.getLast?_cons]
    cases (urls.filter fun url => (scoreOf s url).eq (.fin (-1))).getLast? <;> rfl
  · rfl

/-- The loop gathers all scores, and the last url without requests. -/
theorem scoreUrls_ok {urls : List String} (hdef : ∀ url ∈ urls, ∃ v, s.get_server_score url = .ok v)
    (acc : Dict String PyFloat × Option String) :
    ∃ scores, urls.foldlM s.scoreUrl acc = .ok (scores, (lastIdle s urls).or acc.2) ∧
      ∀ url, scores.lookup url =
        if url ∈ urls then some (scoreOf s url) else acc.1.lookup url := by
  induction urls generalizing acc with
  | nil => exact ⟨acc.1, rfl, fun url => by simp⟩
  | cons url urls ih =>
    obtain ⟨v, hv⟩ := hdef url List.mem_cons_self
    have hstep : s.scoreUrl acc url = .ok (acc.1.insert url (scoreOf s url),
        if (scoreOf s url).eq (.fin (-1)) then some url else acc.2) := by
      unfold LeastBusy.scoreUrl
      rw [hv, scoreOf_eq hv]
    obtain ⟨scores, hscores, hlookup⟩ := ih (fun u hu => hdef u (List.mem_cons_of_mem _ hu))
      (acc.1.insert url (scoreOf s url),
        if (scoreOf s url).eq (.fin (-1)) then some url else acc.2)
    refine ⟨scores, ?_, fun u => ?_⟩
    · rw [List.foldlM_cons, hstep]
      simp only [bind, Except.bind, hscores, lastIdle_cons]
    · rw [hlookup, Dict.lookup_insert_eq]
      by_cases hmem : u ∈ urls
      · simp [hmem]
      · by_cases hu : u = url
        · simp [hu]
        · simp [hmem, hu]

/-! ## The choice over all servers -/

/-- A server of the least score, and that score. -/
structure LeastScored (s : LeastBusy) (r : VLLMServer × Option PyFloat) : Prop where
  mem : r.1 ∈ s.servers
  least : ∃ v, s.get_server_score r.1.url = .ok v ∧ r.2 = some v ∧
    ∀ other ∈ s.servers, ∀ w, s.get_server_score other.url = .ok w → w.lt v = false

theorem strategy_score_iff {url : String} {v : PyFloat} :
    (Strategy.least_busy s).get_server_score url = .ok (some v) ↔
      s.get_server_score url = .ok v := by
  simp only [Strategy.get_server_score]
  cases s.get_server_score url with
  | error e => simp
  | ok w => simp

theorem strategy_score_some {url : String} {score : Option PyFloat}
    (h : (Strategy.least_busy s).get_server_score url = .ok score) : ∃ v, score = some v := by
  simp only [Strategy.get_server_score] at h
  split at h
  · cases h
    exact ⟨_, rfl⟩
  · cases h

/-- The score of the server is -1: it had no request. -/
theorem idle_iff {server : VLLMServer} :
    Idle (.least_busy s) server ↔ s.get_server_score server.url = .ok (.fin (-1)) :=
  strategy_score_iff

/-- Some server is found under the url of a server. -/
theorem exists_found {servers : List VLLMServer} {server : VLLMServer} (hs : server ∈ servers) :
    ∃ found ∈ servers,
      servers.find? (fun other => some other.url = some server.url) = some found := by
  cases hf : servers.find? fun other => some other.url = some server.url with
  | none => exact absurd (List.find?_eq_none.mp hf server hs) (by simp)
  | some found => exact ⟨found, List.mem_of_find?_eq_some hf, rfl⟩

theorem find_server {servers : List VLLMServer} (hnodup : (servers.map (·.url)).Nodup)
    {server : VLLMServer} (hs : server ∈ servers) :
    servers.find? (fun other => some other.url = some server.url) = some server := by
  obtain ⟨found, hfound, hf⟩ := exists_found hs
  have hurl : found.url = server.url := by simpa using List.find?_some hf
  rw [hf, List.inj_on_of_nodup_map hnodup hfound hs hurl]

section Choices

variable (htracker : s.tracker.urls = s.servers.map (·.url))
  (hdef : ∀ server ∈ s.servers, ∃ v, s.get_server_score server.url = .ok v)

include htracker hdef

/-- The scores of the servers, as the loop hands them on. -/
theorem gathered_scores : ∃ scores : Dict String PyFloat,
    s.tracker.urls.foldlM s.scoreUrl (∅, none) = .ok (scores, lastIdle s s.tracker.urls) ∧
    NoNan scores ∧
    ∀ url v, scores.lookup url = some v ↔
      ∃ server ∈ s.servers, server.url = url ∧ s.get_server_score url = .ok v := by
  have hurls : ∀ url ∈ s.tracker.urls, ∃ v, s.get_server_score url = .ok v := by
    intro url hurl
    rw [htracker] at hurl
    obtain ⟨server, hs, rfl⟩ := List.mem_map.mp hurl
    exact hdef server hs
  obtain ⟨scores, hscores, hlookup⟩ := scoreUrls_ok hurls (∅, none)
  have hiff : ∀ url v, scores.lookup url = some v ↔
      ∃ server ∈ s.servers, server.url = url ∧ s.get_server_score url = .ok v := by
    intro url v
    rw [hlookup, htracker]
    constructor
    · intro h
      split at h
      · rename_i hurl
        obtain ⟨server, hs, rfl⟩ := List.mem_map.mp hurl
        obtain ⟨w, hw⟩ := hdef server hs
        rw [scoreOf_eq hw] at h
        cases h
        exact ⟨server, hs, rfl, hw⟩
      · cases h
    · rintro ⟨server, hs, rfl, hv⟩
      rw [if_pos (List.mem_map_of_mem hs), scoreOf_eq hv]
  rw [Option.or_none] at hscores
  refine ⟨scores, hscores, fun url v hv => ?_, hiff⟩
  obtain ⟨_, _, _, hscore⟩ := (hiff url v).mp hv
  exact score_ne_nan hscore

omit htracker in
theorem items_of_servers (hne : s.servers ≠ []) {scores : Dict String PyFloat}
    (hiff : ∀ url v, scores.lookup url = some v ↔
      ∃ server ∈ s.servers, server.url = url ∧ s.get_server_score url = .ok v) :
    scores.items ≠ [] := by
  obtain ⟨server, hs⟩ := List.exists_mem_of_ne_nil _ hne
  obtain ⟨v, hv⟩ := hdef server hs
  have hlookup := (hiff server.url v).mpr ⟨server, hs, rfl, hv⟩
  exact List.ne_nil_of_mem (Dict.mem_items_iff_lookup.mpr hlookup)

theorem lastIdle_eq_none (hbusy : ∀ server ∈ s.servers, ¬Idle (.least_busy s) server) :
    lastIdle s s.tracker.urls = none := by
  unfold lastIdle
  rw [List.getLast?_eq_none_iff, List.filter_eq_nil_iff, htracker]
  intro url hurl heq
  obtain ⟨server, hs, rfl⟩ := List.mem_map.mp hurl
  obtain ⟨v, hv⟩ := hdef server hs
  rw [scoreOf_eq hv] at heq
  apply hbusy server hs
  rw [idle_iff, hv, eq_of_pyfloat_eq heq]

/-- When every server has a score, `choose_server` can give each one of the least score. -/
theorem choose_server_possible (hnodup : (s.servers.map (·.url)).Nodup)
    (hbusy : ∀ server ∈ s.servers, ¬Idle (.least_busy s) server) (hne : s.servers ≠ [])
    {r : VLLMServer × Option PyFloat} :
    (∃ random, s.choose_server random = .ok r) ↔ LeastScored s r := by
  obtain ⟨scores, hscores, hnan, hiff⟩ := gathered_scores htracker hdef
  have hitems := items_of_servers hdef hne hiff
  -- the one found by the url of the least score, if any
  have hchoose : ∀ random, s.choose_server random =
      (least_busy scores random).bind fun least =>
        (s.servers.find? fun server => some server.url = some least.1).elim
          (.error .ServerNotFound) fun server => .ok (server, some least.2) := by
    intro random
    unfold LeastBusy.choose_server leastBusyUrl
    rw [hscores, lastIdle_eq_none htracker hdef hbusy]
    simp only [bind, Except.bind]
    rw [if_pos ⟨hitems, rfl⟩]
    cases least_busy scores random with
    | error e => rfl
    | ok least =>
      simp only
      cases s.servers.find? fun server => some server.url = some least.1 with
      | none => rfl
      | some server => rfl
  constructor
  · rintro ⟨random, h⟩
    rw [hchoose] at h
    cases hl : least_busy scores random with
    | error e =>
      rw [hl] at h
      cases h
    | ok least =>
      obtain ⟨url, v⟩ := least
      simp only [hl, Except.bind] at h
      cases hf : s.servers.find? fun server => some server.url = some url with
      | none =>
        rw [hf] at h
        cases h
      | some server =>
        rw [hf] at h
        cases h
        obtain ⟨hlookup, hleast⟩ := (least_busy_possible hnan).mp ⟨random, hl⟩
        have hurl : server.url = url := by simpa using List.find?_some hf
        obtain ⟨_, _, _, hv⟩ := (hiff url v).mp hlookup
        refine ⟨List.mem_of_find?_eq_some hf, v, by rw [hurl]; exact hv, rfl, ?_⟩
        exact fun other hother w hw => hleast other.url w
          ((hiff other.url w).mpr ⟨other, hother, rfl, hw⟩)
  · rintro ⟨hmem, v, hv, hr, hleast⟩
    obtain ⟨random, hl⟩ := (least_busy_possible hnan).mpr
      ⟨(hiff r.1.url v).mpr ⟨r.1, hmem, rfl, hv⟩, fun other w hw => by
        obtain ⟨server, hs, rfl, hscore⟩ := (hiff other w).mp hw
        exact hleast server hs w hscore⟩
    refine ⟨random, ?_⟩
    rw [hchoose, hl]
    simp only [Except.bind, find_server hnodup hmem, Option.elim_some, ← hr]

omit hdef in
theorem server_of_lastIdle {url : String} (h : lastIdle s s.tracker.urls = some url) :
    ∃ server ∈ s.servers, server.url = url := by
  have hurl := (List.mem_filter.mp (List.mem_of_getLast? h)).1
  rw [htracker] at hurl
  exact List.mem_map.mp hurl

/-- With servers and their scores, `choose_server` finds one of them. -/
theorem choose_server_found (hne : s.servers ≠ []) (random : Nat) :
    ∃ server ∈ s.servers, ∃ indicator, s.choose_server random = .ok (server, indicator) := by
  obtain ⟨scores, hscores, hnan, hiff⟩ := gathered_scores htracker hdef
  have hitems := items_of_servers hdef hne hiff
  have hchosen : ∃ server ∈ s.servers, ∃ indicator,
      leastBusyUrl random (scores, lastIdle s s.tracker.urls) =
        .ok (some server.url, indicator) := by
    unfold leastBusyUrl
    by_cases hfalsy : isFalsy (lastIdle s s.tracker.urls) = true
    · obtain ⟨⟨url, v⟩, hl⟩ := least_busy_ok hitems hnan random
      obtain ⟨hlookup, _⟩ := (least_busy_possible hnan).mp ⟨random, hl⟩
      obtain ⟨server, hs, rfl, _⟩ := (hiff url v).mp hlookup
      exact ⟨server, hs, some v, by simp only [if_pos (And.intro hitems hfalsy), hl]⟩
    · cases hlast : lastIdle s s.tracker.urls with
      | none => exact absurd (by rw [hlast]; rfl) hfalsy
      | some url =>
        rw [hlast] at hfalsy
        obtain ⟨server, hs, rfl⟩ := server_of_lastIdle htracker hlast
        exact ⟨server, hs, none, by simp only [if_neg (mt And.right hfalsy)]⟩
  obtain ⟨server, hs, indicator, hurl⟩ := hchosen
  obtain ⟨found, hfound, hf⟩ := exists_found hs
  refine ⟨found, hfound, indicator, ?_⟩
  unfold LeastBusy.choose_server
  rw [hscores]
  simp only [bind, Except.bind, hurl, hf]

/-- When some server has no score, `choose_server` gives one of these, with no indicator. -/
theorem choose_server_of_idle (hurls : ∀ server ∈ s.servers, server.url ≠ "")
    (hidle : ∃ server ∈ s.servers, Idle (.least_busy s) server) (random : Nat) :
    ∃ server ∈ s.servers, s.choose_server random = .ok (server, none) := by
  obtain ⟨scores, hscores, _, _⟩ := gathered_scores htracker hdef
  obtain ⟨server, hs, hscore⟩ := hidle
  have hmem : server.url ∈ s.tracker.urls.filter fun url => (scoreOf s url).eq (.fin (-1)) := by
    rw [List.mem_filter, htracker, scoreOf_eq (idle_iff.mp hscore)]
    exact ⟨List.mem_map_of_mem hs, by simp [PyFloat.eq]⟩
  obtain ⟨url, hlast⟩ : ∃ url, lastIdle s s.tracker.urls = some url := Option.ne_none_iff_exists'.mp
    (mt List.getLast?_eq_none_iff.mp (List.ne_nil_of_mem hmem))
  obtain ⟨last, hlastmem, rfl⟩ := server_of_lastIdle htracker hlast
  obtain ⟨found, hfound, hf⟩ := exists_found hlastmem
  refine ⟨found, hfound, ?_⟩
  have hfalsy : ¬(scores.items ≠ [] ∧ isFalsy (some last.url)) := by
    rintro ⟨_, h⟩
    simp only [isFalsy, Option.all_some, rpc_server.urlField_empty, decide_eq_true_eq] at h
    exact hurls last hlastmem h
  unfold LeastBusy.choose_server leastBusyUrl
  rw [hscores]
  simp only [hlast, bind, Except.bind]
  rw [if_neg hfalsy]
  simp only [hf]

/-- Without an indicator, the server has no score. -/
theorem idle_of_choose_server {random : Nat} {server : VLLMServer}
    (h : s.choose_server random = .ok (server, none)) : Idle (.least_busy s) server := by
  obtain ⟨acc, url, hacc, hurl, hfind⟩ := choose_server_ok h
  obtain ⟨scores, hscores, _, _⟩ := gathered_scores htracker hdef
  cases hscores.symm.trans hacc
  have hlast : lastIdle s s.tracker.urls = some server.url := by
    have heq : some server.url = url := by simpa using List.find?_some hfind
    rw [heq]
    simp only [leastBusyUrl] at hurl
    split at hurl
    · split at hurl <;> cases hurl
    · cases hurl
      rfl
  have hmem := List.mem_filter.mp (List.mem_of_getLast? hlast)
  obtain ⟨v, hv⟩ := hdef server (List.mem_of_find?_eq_some hfind)
  rw [scoreOf_eq hv] at hmem
  rw [idle_iff, hv, eq_of_pyfloat_eq hmem.2]

end Choices

/-! ## The choice among the servers of an organization -/

theorem scoreDuplicates_defined {strategy : Strategy} {duplicates : List VLLMServer}
    (hdef : ∀ server ∈ duplicates, ∃ score, strategy.get_server_score server.url = .ok score)
    (scores : Dict VLLMServer (Option PyFloat)) :
    ∃ r, scoreDuplicates strategy duplicates scores = .ok r := by
  induction duplicates generalizing scores with
  | nil => exact ⟨_, rfl⟩
  | cons server duplicates ih =>
    obtain ⟨score, hscore⟩ := hdef server List.mem_cons_self
    unfold scoreDuplicates
    simp only [hscore]
    split
    · exact ⟨_, rfl⟩
    · exact ih (fun other hother => hdef other (List.mem_cons_of_mem _ hother)) _

/-- From scores with no NaN, each server of the least one can be chosen. -/
theorem chooseScored_possible {scores : Dict VLLMServer (Option PyFloat)}
    (hall : ∀ server score, scores.lookup server = some score → ∃ w, score = some w ∧ w ≠ .nan)
    {server : VLLMServer} {v : PyFloat} (hs : scores.lookup server = some (some v))
    (hleast : ∀ other w, scores.lookup other = some (some w) → w.lt v = false) :
    ∃ random, chooseScored scores random = .ok (server, some v) := by
  have hnone : scores.items.any (fun e => decide (e.2 = none)) = false := by
    rw [List.any_eq_false]
    rintro ⟨k, score⟩ he hscore
    obtain ⟨w, rfl, _⟩ := hall k score (Dict.mem_items_iff_lookup.mp he)
    cases of_decide_eq_true hscore
  have hvalues : ∀ w ∈ scores.items.filterMap (·.2), w ≠ .nan := by
    intro w hw
    obtain ⟨other, hother⟩ := mem_values.mp hw
    obtain ⟨w', heq, hn⟩ := hall other (some w) hother
    rwa [Option.some.inj heq]
  have hmin : minimum (scores.items.filterMap (·.2)) = some v := by
    refine (minimum_eq_some_iff hvalues).mpr ⟨mem_values.mpr ⟨server, hs⟩, fun w hw => ?_⟩
    obtain ⟨other, hother⟩ := mem_values.mp hw
    exact hleast other w hother
  have hmem : server ∈ (scores.items.filter fun e =>
      e.2.any fun w => w.eq v).map (·.1) := by
    refine List.mem_map.mpr ⟨(server, some v), List.mem_filter.mpr
      ⟨Dict.mem_items_iff_lookup.mpr hs, ?_⟩, rfl⟩
    exact eq_self_of_ne_nan (hvalues v (mem_values.mpr ⟨server, hs⟩))
  obtain ⟨random, hc⟩ := choice_possible.mpr hmem
  refine ⟨random, ?_⟩
  unfold chooseScored
  rw [hnone, hmin]
  simp only [hc]
  rfl

section Choices

variable {duplicates : List VLLMServer}
  (hdef : ∀ server ∈ duplicates, ∃ v, s.get_server_score server.url = .ok v)

include hdef

theorem strategy_scores_defined : ∀ server ∈ duplicates, ∃ score,
    (Strategy.least_busy s).get_server_score server.url = .ok score := by
  intro server hs
  obtain ⟨v, hv⟩ := hdef server hs
  exact ⟨some v, by simp only [Strategy.get_server_score, hv]⟩

/-- When some server has no score, the choice gives one of these, with the indicator -1. -/
theorem choose_among_duplicates_of_idle
    (hidle : ∃ server ∈ duplicates, Idle (.least_busy s) server) :
    ∃ server ∈ duplicates, ∀ random,
      choose_among_duplicates (.least_busy s) duplicates random =
        .ok (server, some (.fin (-1))) := by
  obtain ⟨r, hr⟩ := scoreDuplicates_defined (strategy_scores_defined hdef) ∅
  rcases scoreDuplicates_ok (fun _ _ h => by cases h) hr with
    ⟨before, server, after, rfl, hsplit, _, _⟩ | ⟨_, _, _, _, hbusy⟩
  · refine ⟨server, by simp [hsplit], fun random => ?_⟩
    unfold choose_among_duplicates
    simp only [hr]
  · obtain ⟨server, hs, hscore⟩ := hidle
    exact absurd hscore (hbusy server hs)

/-- When every server has a score, the choice can give each one of the least score. -/
theorem choose_among_duplicates_possible (hservers : s.servers = duplicates)
    (hbusy : ∀ server ∈ duplicates, ¬Idle (.least_busy s) server)
    {r : VLLMServer × Option PyFloat} :
    (∃ random, choose_among_duplicates (.least_busy s) duplicates random = .ok r) ↔
      LeastScored s r := by
  constructor
  · rintro ⟨random, h⟩
    obtain ⟨server, score⟩ := r
    have hmem := mem_of_choose_among_duplicates h
    cases candidate_of_choose_among_duplicates h with
    | first _ hidle _ => exact absurd hidle (hbusy _ hmem)
    | unscored _ _ hnone =>
      obtain ⟨_, hsome⟩ := strategy_score_some hnone
      cases hsome
    | least hs hscore _ hleast =>
      refine ⟨hservers ▸ hs, _, strategy_score_iff.mp hscore, rfl, fun other hother w hw => ?_⟩
      exact hleast other (hservers ▸ hother) w (strategy_score_iff.mpr hw)
  · rintro ⟨hmem, v, hv, hr, hleast⟩
    obtain ⟨result, hresult⟩ := scoreDuplicates_defined (strategy_scores_defined hdef) ∅
    rcases scoreDuplicates_ok (fun _ _ h => by cases h) hresult with
      ⟨_, server, _, _, hsplit, hidle, _⟩ | ⟨scores, rfl, hscores, hkeys, _⟩
    · exact absurd hidle (hbusy server (by simp [hsplit]))
    have hscore : ∀ server score, scores.lookup server = some score →
        ∃ w, score = some w ∧ w ≠ .nan ∧ server ∈ duplicates ∧
          s.get_server_score server.url = .ok w := by
      intro server score hlookup
      have hget := hscores server score hlookup
      obtain ⟨w, rfl⟩ := strategy_score_some hget
      have hw := strategy_score_iff.mp hget
      refine ⟨w, rfl, score_ne_nan hw, ?_, hw⟩
      exact ((hkeys server).mp (Dict.mem_of_lookup hlookup)).resolve_right fun hm => by cases hm
    have hlookup : scores.lookup r.1 = some (some v) := by
      obtain ⟨score, hs⟩ := Dict.exists_of_mem ((hkeys r.1).mpr (.inl (hservers ▸ hmem)))
      obtain ⟨w, rfl, _, _, hw⟩ := hscore r.1 score hs
      rw [hv] at hw
      cases hw
      exact hs
    obtain ⟨random, hc⟩ := chooseScored_possible
      (fun server score hs => by
        obtain ⟨w, hw, hn, _⟩ := hscore server score hs
        exact ⟨w, hw, hn⟩)
      hlookup
      (fun other w hs => by
        obtain ⟨_, heq, _, hother, hw⟩ := hscore other (some w) hs
        cases heq
        exact hleast other (hservers ▸ hother) w hw)
    refine ⟨random, ?_⟩
    unfold choose_among_duplicates
    simp only [hresult, hc, ← hr]

end Choices

/-! ## The two choices together -/

/-- On one list of servers, the two choices have the same results exactly when no server of it
is without a score. -/
theorem the_choices_agree_iff_every_server_has_a_score (cfg : Settings)
    (hurls : ∀ server ∈ cfg.VLLM_SERVERS, server.url ≠ "") (s : LeastBusy) (organization : String)
    (hservers : s.servers = organization_servers cfg organization)
    (htracker : s.tracker.urls = s.servers.map (·.url)) (hne : s.servers ≠ [])
    (hdef : ∀ server ∈ s.servers, ∃ v, s.get_server_score server.url = .ok v) :
    {r | ∃ random, s.choose_server random = .ok r} =
      {r | ∃ random, choose_among_duplicates (.least_busy s)
        (organization_servers cfg organization) random = .ok r} ↔
    ∀ server ∈ s.servers, ¬Idle (.least_busy s) server := by
  have hconfigured : ∀ server ∈ s.servers, server ∈ cfg.VLLM_SERVERS := by
    intro server hs
    rw [hservers] at hs
    exact List.mem_of_mem_filter hs
  have hnodup : (s.servers.map (·.url)).Nodup := by
    rw [hservers]
    exact (List.filter_sublist.map _).nodup cfg.urls_nodup
  rw [← hservers]
  constructor
  · intro heq server hs hidle
    obtain ⟨last, _, hlast⟩ := choose_server_of_idle htracker hdef
      (fun server hs => hurls server (hconfigured server hs)) ⟨server, hs, hidle⟩ 0
    obtain ⟨first, _, hfirst⟩ := choose_among_duplicates_of_idle hdef ⟨server, hs, hidle⟩
    have hmem : (last, none) ∈ {r | ∃ random, s.choose_server random = .ok r} := ⟨0, hlast⟩
    -- one choice gives no indicator there, the other gives -1
    rw [heq] at hmem
    obtain ⟨random, hsame⟩ := hmem
    rw [hfirst random] at hsame
    cases hsame
  · intro hbusy
    ext r
    exact (choose_server_possible htracker hdef hnodup hbusy hne).trans
      (choose_among_duplicates_possible hdef rfl hbusy).symm

/-- Two servers that each served one request, above every bucket. -/
def scoredServers : LeastBusy where
  servers := (twoServerSettings .least_busy .warning_log).VLLM_SERVERS
  tracker := { MetricsTracker.create ["http://a", "http://b"] 1 with
    time_to_first_token_diff_histograms :=
      Dict.ofKeys ["http://a", "http://b"] fun _ => (∅ : Histogram).insert ⊤ 1 }
  updating := none

theorem the_choices_agree_on_two_scored_servers :
    {r | ∃ random, scoredServers.choose_server random = .ok r} =
      {r | ∃ random, choose_among_duplicates (.least_busy scoredServers)
        (organization_servers (twoServerSettings .least_busy .warning_log) "org") random =
          .ok r} := by
  have hscore : ∀ server ∈ scoredServers.servers,
      scoredServers.get_server_score server.url = .ok .posInf := by decide +kernel
  refine (the_choices_agree_iff_every_server_has_a_score
    (twoServerSettings .least_busy .warning_log) (by decide) scoredServers "org" (by decide) rfl
    (by decide) fun server hs => ⟨_, hscore server hs⟩).mpr fun server hs hidle => ?_
  have hv := idle_iff.mp hidle
  rw [hscore server hs] at hv
  cases hv

/-- Two servers without requests: one choice gives the second, with no indicator, and the other
gives the first, with -1. -/
theorem the_choices_differ_on_servers_without_requests :
    ¬∀ (cfg : Settings) (s : LeastBusy) (organization : String),
      (∀ server ∈ cfg.VLLM_SERVERS, server.url ≠ "") →
      s.servers = organization_servers cfg organization →
      s.tracker.urls = s.servers.map (·.url) → s.servers ≠ [] →
      (∀ server ∈ s.servers, ∃ v, s.get_server_score server.url = .ok v) →
      {r | ∃ random, s.choose_server random = .ok r} =
        {r | ∃ random, choose_among_duplicates (.least_busy s)
          (organization_servers cfg organization) random = .ok r} := by
  intro h
  have heq := h (twoServerSettings .least_busy .warning_log)
    (.create (twoServerSettings .least_busy .warning_log).VLLM_SERVERS 1) "org" (by decide)
    (by decide) rfl (by decide) fun server hs => ⟨.fin (-1), by revert server; decide +kernel⟩
  have hmem : ((⟨"http://b", none, "org", 1⟩ : VLLMServer), (none : Option PyFloat)) ∈
      {r | ∃ random, (LeastBusy.create
        (twoServerSettings .least_busy .warning_log).VLLM_SERVERS 1).choose_server random =
          .ok r} := ⟨0, by decide +kernel⟩
  rw [heq] at hmem
  obtain ⟨random, hr⟩ := hmem
  have hfirst : choose_among_duplicates (.least_busy
      (.create (twoServerSettings .least_busy .warning_log).VLLM_SERVERS 1))
      (organization_servers (twoServerSettings .least_busy .warning_log) "org") random =
        .ok (⟨"http://a", none, "org", 1⟩, some (.fin (-1))) := rfl
  rw [hfirst] at hr
  have hindicator := congrArg (fun r => r.toOption.map Prod.snd) hr
  cases hindicator

end aristote_dispatcher.rpc_server
