-- Servers whose fields have the types that the dataclass declares. No comparison with their
-- limit and no validation fails, so a delivery is settled unless a percentile raises or the
-- performance policy defers.
import AristoteDispatcher.Settlement

open pydict pyfloat json
open aristote_dispatcher.settings aristote_dispatcher.messages
open aristote_dispatcher.policies aristote_dispatcher.strategy

namespace aristote_dispatcher.rpc_server

variable {cfg : Settings} {s : State}

/-! ## The policy and the answer -/

theorem message_data_declared (cfg : Settings) (server : VLLMServer) (current : Nat)
    (indicator : Option PyFloat) (forwarded : Option Int) (message : Message) :
    message_data cfg server current indicator forwarded message = some
      { llm_url := some server.url
        llm_token := server.token
        llm_organization := some server.organization
        strategy := cfg.ROUTING_STRATEGY.name
        requeue_count := message.requeue_count
        max_parallel_requests := server.max_parallel_requests
        current_parallel_requests := some current
        forwarded_priority := forwarded
        performance_score := indicator } := rfl

theorem valid_declared (server : VLLMServer) : Valid server :=
  ⟨Option.some_ne_none _, Option.some_ne_none _, Option.some_ne_none _, Option.some_ne_none _⟩

/-- Only the performance policy keeps a request from being settled. -/
theorem settles_iff_not_defers {indicator : Option PyFloat} {current : Nat} {server : VLLMServer}
    {priority : Option UInt8}
    (ht : indicator ≠ none → cfg.TIME_TO_FIRST_TOKEN_THRESHOLD ≠ none) :
    Settles cfg indicator current server priority ↔
      ¬Defers cfg indicator current server.max_parallel_requests := by
  have hvalid := valid_declared server
  unfold Settles Passes Requeues Defers
  cases hpol : cfg.QUALITY_OF_SERVICE_POLICY with
  | warning_log => simp [hvalid, LimitField.reached]
  | parallel_requests_threshold_requeue =>
    cases ParallelRequestsThresholdRequeuePolicy.privileged cfg.BEST_PRIORITY priority with
    | true => simp [hvalid]
    | false => by_cases hle : server.max_parallel_requests ≤ current <;>
        simp [hvalid, LimitField.reached, hle]
  | performance_based_requeue =>
    rcases indicator with _ | p
    · simp [hvalid]
    · obtain ⟨t, hthr⟩ := Option.ne_none_iff_exists'.mp (ht (by simp))
      simp [hvalid, LimitField.reached, exceeds, hthr]

/-! ## The private queues -/

/-- The configured servers of the organization of a server. -/
def organization_servers (cfg : Settings) (organization : String) : List VLLMServer :=
  cfg.VLLM_SERVERS.filter fun server => server.organization = organization

theorem matching_servers_ofString (cfg : Settings) (organization : String) :
    matching_servers cfg (.str (PyStr.ofString organization)) =
      organization_servers cfg organization := by
  unfold matching_servers organization_servers
  apply List.filter_congr
  intro server _
  rw [show OrganizationField.equals server.organization (.str (PyStr.ofString organization)) =
    isStr (.str (PyStr.ofString organization)) server.organization from rfl, isStr_ofString,
    decide_eq_decide]
  exact eq_comm

theorem queue_organization_declared (cfg : Settings) (i : Nat) :
    queue_organization cfg i = cfg.VLLM_SERVERS[i]?.map (·.organization) := by
  unfold queue_organization
  cases cfg.VLLM_SERVERS[i]? <;> rfl

/-- A private queue is named after the organization of its server. -/
theorem server_of_queue {i : Nat} {key : String}
    (h : (Subscription.server_queue i).queue cfg = some key) :
    ∃ server, cfg.VLLM_SERVERS[i]? = some server ∧
      private_queue cfg.MODEL server.organization = key := by
  rw [Subscription.queue, queue_organization_declared, Option.map_map] at h
  exact Option.map_eq_some_iff.mp h

theorem queue_of_server {i : Nat} {server : VLLMServer} (h : cfg.VLLM_SERVERS[i]? = some server) :
    (Subscription.server_queue i).queue cfg =
      some (private_queue cfg.MODEL server.organization) := by
  rw [Subscription.queue, queue_organization_declared, h]
  rfl

theorem chosen_private {i : Nat} {server : VLLMServer} (h : cfg.VLLM_SERVERS[i]? = some server)
    (strategy : Strategy) (random : Nat) :
    chosen cfg strategy random (.server_queue i) =
      choose_among_duplicates strategy (organization_servers cfg server.organization) random := by
  rw [← matching_servers_ofString]
  simp only [chosen, queue_organization_declared, h, Option.map_some]
  rfl

/-- What the callback reads in a message of a private queue. -/
theorem readMembers_of_private {organization : String} {message : Message}
    (hp : Published cfg.MODEL message)
    (hk : message.routing_key = private_queue cfg.MODEL organization) :
    ∃ data queue, readMembers message.body = .ok data ∧
      matching_servers cfg (getMember data "organization") = organization_servers cfg organization ∧
      target_requeue cfg (getMember data "routing_mode") = .ok queue := by
  obtain ⟨data, queue, hread, hservers, hqueue⟩ := read_private hp hk
  exact ⟨data, queue, hread, hservers.trans (matching_servers_ofString cfg organization), hqueue⟩

/-- The queue of a server has that server to choose. -/
theorem hasCandidates_declared (cfg : Settings) (subscription : Subscription) :
    HasCandidates cfg subscription := by
  cases subscription with
  | main => trivial
  | server_queue i =>
    intro organization horganization
    rw [queue_organization_declared] at horganization
    obtain ⟨server, hserver, rfl⟩ := Option.map_eq_some_iff.mp horganization
    have hmem : server ∈ organization_servers cfg server.organization :=
      List.mem_filter.mpr ⟨List.mem_of_getElem? hserver, by simp⟩
    rw [candidates, matching_servers_ofString]
    exact List.ne_nil_of_mem hmem

end aristote_dispatcher.rpc_server
