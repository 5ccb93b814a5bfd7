-- The list of the models (sender/models.py) against the queues that the consumers declare
-- (consumer/rpc_server.py: `first_connect`). A name is filtered by how it begins and ends,
-- so a model whose own name does so is not listed.
import AristoteDispatcher.Middleware

open json (Json PyStr)
open aristote_dispatcher.settings aristote_dispatcher.messages
open aristote_dispatcher.queues (listed queue_names mem_queue_names)
open aristote_dispatcher.rpc_server (isStr roundRobinSettings)

namespace aristote_dispatcher.middleware

/-- The bindings of the default exchange: the queues that the consumers declared, and those
whose names the broker generated, for the callback queues of the senders and for a queue that
is declared without a name. -/
structure Bindings (consumers : List Settings) (generated destinations : List String) : Prop where
  nodup : destinations.Nodup
  mem : ∀ name, name ∈ destinations ↔
    name ∈ generated ∨ name ≠ "" ∧ ∃ c ∈ consumers, name ∈ queue_names c
  amq : ∀ name ∈ generated, "amq".toList <+: name.toList

/-- Those of a list of consumers and a list of generated names. -/
def destinations_of (consumers : List Settings) (generated : List String) : List String :=
  (generated ++ (consumers.flatMap queue_names).filter fun name => name ≠ "").dedup

/-- The name is the model of a consumer. -/
def IsModel (consumers : List Settings) (name : String) : Prop := ∃ c ∈ consumers, c.MODEL = name

/-- The list has each model once and nothing else, every model is found by its id, and just
behind a refresh nothing else is. -/
structure Exact (consumers : List Settings) (destinations : List String) : Prop where
  nodup : (get_models destinations).Nodup
  mem : ∀ name, name ∈ get_models destinations ↔ IsModel consumers name
  found : ∀ env : Environment, env.bindings = some destinations → ∀ name,
    IsModel consumers name → get_model_by_id env (.str (.ofString name)) = .ok (some name)
  fresh : ∀ env : Environment, env.bindings = some destinations →
    env.models = get_models destinations → ∀ model_id name,
    get_model_by_id env model_id = .ok (some name) →
      model_id = .str (.ofString name) ∧ IsModel consumers name

variable {consumers : List Settings} {generated destinations : List String} {name : String}

theorem bindings_destinations_of (h : ∀ name ∈ generated, "amq".toList <+: name.toList) :
    Bindings consumers generated (destinations_of consumers generated) where
  nodup := List.nodup_dedup _
  mem name := by
    unfold destinations_of
    rw [List.mem_dedup, List.mem_append, List.mem_filter, List.mem_flatMap, decide_eq_true_eq,
      and_comm]
  amq := h

theorem mem_get_models : name ∈ get_models destinations ↔ name ∈ destinations ∧ listed name := by
  unfold get_models
  rw [List.mem_filter]

/-! ## The names that the filter takes out -/

theorem listed_iff : listed name = true ↔ ¬ "amq".toList <+: name.toList ∧
    ¬ "completed".toList <:+ name.toList ∧ ¬ "private".toList <:+ name.toList := by
  unfold listed
  rw [Bool.and_eq_true, Bool.and_eq_true, Bool.not_eq_true', Bool.not_eq_true',
    Bool.not_eq_true', ← Bool.not_eq_true, ← Bool.not_eq_true, ← Bool.not_eq_true,
    List.isPrefixOf_iff_prefix, List.isSuffixOf_iff_suffix, List.isSuffixOf_iff_suffix, and_assoc]

theorem completed_queue_not_listed (model : String) : ¬ listed (completed_queue model) = true := by
  rw [listed_iff]
  rintro ⟨_, h, _⟩
  refine h ⟨model.toList ++ ['_'], ?_⟩
  simp [completed_queue]

theorem private_queue_not_listed (model organization : String) :
    ¬ listed (private_queue model organization) = true := by
  rw [listed_iff]
  rintro ⟨_, _, h⟩
  refine h ⟨model.toList ++ '_' :: organization.toList ++ ['_'], ?_⟩
  simp [private_queue]

/-- Of the queues of a consumer, only that of its model can be listed. -/
theorem model_of_listed {c : Settings} (hmem : name ∈ queue_names c) (h : listed name = true) :
    name = c.MODEL := by
  rcases mem_queue_names.mp hmem with rfl | rfl | ⟨server, _, rfl⟩
  · rfl
  · exact absurd h (completed_queue_not_listed _)
  · exact absurd h (private_queue_not_listed _ _)

/-! ## The list -/

/-- The list has the models whose names are not empty and are not filtered. -/
theorem mem_get_models_iff (h : Bindings consumers generated destinations) :
    name ∈ get_models destinations ↔
      IsModel consumers name ∧ name ≠ "" ∧ listed name = true := by
  rw [mem_get_models, h.mem]
  constructor
  · rintro ⟨hgenerated | ⟨hne, c, hc, hmem⟩, hlisted⟩
    · exact absurd (h.amq name hgenerated) (listed_iff.mp hlisted).1
    · exact ⟨⟨c, hc, (model_of_listed hmem hlisted).symm⟩, hne, hlisted⟩
  · rintro ⟨⟨c, hc, rfl⟩, hne, hlisted⟩
    exact ⟨.inr ⟨hne, c, hc, mem_queue_names.mpr (.inl rfl)⟩, hlisted⟩

theorem found_name {models : List String} {m : String}
    (h : models.find? (fun m => isStr (.str (.ofString name)) m) = some m) : m = name :=
  PyStr.ofString_inj.mp (Json.str.inj (found_model h).2).symm

theorem find_isStr {models : List String} (h : name ∈ models) :
    models.find? (fun m => isStr (.str (.ofString name)) m) = some name := by
  cases hfind : models.find? fun m => isStr (.str (.ofString name)) m with
  | none =>
    have hno := List.find?_eq_none.mp hfind name h
    exact absurd (rpc_server.isStr_iff.mpr rfl) hno
  | some m => rw [found_name hfind]

theorem get_model_by_id_found {env : Environment} (hb : env.bindings = some destinations)
    (h : name ∈ get_models destinations) :
    get_model_by_id env (.str (.ofString name)) = .ok (some name) := by
  unfold get_model_by_id
  rw [if_neg (by simp [hashable])]
  split
  · rename_i m hfind
    rw [found_name hfind]
  · rw [hb]
    simp only [find_isStr h]

/-- The list of the models is exact exactly when no model has the empty name or a name that
begins with `amq` or ends with `completed` or `private`. -/
theorem the_model_list_is_exact_iff_every_model_is_listed
    (h : Bindings consumers generated destinations) :
    Exact consumers destinations ↔ ∀ c ∈ consumers, c.MODEL ≠ "" ∧ listed c.MODEL = true := by
  constructor
  · intro hexact c hc
    exact ((mem_get_models_iff h).mp ((hexact.mem c.MODEL).mpr ⟨c, hc, rfl⟩)).2
  · intro hall
    have hmem : ∀ name, name ∈ get_models destinations ↔ IsModel consumers name := by
      intro name
      rw [mem_get_models_iff h]
      refine ⟨And.left, ?_⟩
      rintro ⟨c, hc, rfl⟩
      exact ⟨⟨c, hc, rfl⟩, hall c hc⟩
    refine ⟨h.nodup.filter _, hmem, ?_, ?_⟩
    · intro env hb name hname
      exact get_model_by_id_found hb ((hmem name).mpr hname)
    · intro env hb hmodels model_id name hid
      obtain ⟨hlists, hvalue⟩ := get_model_by_id_ok hid
      refine ⟨hvalue, (hmem name).mp ?_⟩
      rcases hlists with hmemory | ⟨destinations', hb', hread⟩
      · rwa [hmodels] at hmemory
      · rw [hb] at hb'
        cases hb'
        exact hread

/-- A consumer of a model with one server. -/
def oneServer (model : String) : Settings :=
  { roundRobinSettings with
    MODEL := model
    VLLM_SERVERS := [⟨"http://a", none, "org", 1⟩]
    urls_nodup := List.nodup_singleton _ }

/-- The names that the broker gives to the callback queues of two senders. -/
theorem amq_callback : ∀ name ∈ ["amq.gen-1", "amq.gen-2"], "amq".toList <+: name.toList := by
  decide

theorem the_list_of_two_models_is_exact :
    Exact [oneServer "llama", oneServer "mistral", oneServer "llama"]
      (destinations_of [oneServer "llama", oneServer "mistral", oneServer "llama"]
        ["amq.gen-1", "amq.gen-2"]) := by
  refine (the_model_list_is_exact_iff_every_model_is_listed
    (bindings_destinations_of amq_callback)).mpr ?_
  simp only [List.forall_mem_cons]
  exact ⟨⟨by decide, by decide⟩, ⟨by decide, by decide⟩, ⟨by decide, by decide⟩, by simp⟩

/-- The name of a model ends as that of a private queue. -/
theorem a_model_of_a_private_name_is_not_listed :
    ¬ ∀ (consumers : List Settings) (generated destinations : List String),
      Bindings consumers generated destinations → Exact consumers destinations := by
  intro hall
  have hexact := hall [oneServer "llama-private"] _ _ (bindings_destinations_of amq_callback)
  have hmem := (hexact.mem "llama-private").mpr ⟨_, List.mem_singleton_self _, rfl⟩
  exact absurd (mem_get_models.mp hmem).2 (by decide)

end aristote_dispatcher.middleware
