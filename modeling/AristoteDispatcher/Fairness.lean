-- The fairness of round robin (strategy/round_robin.py) while the pinger finds the
-- same servers again: each of its rounds (server_pinger.py) still sets the index
-- back to 0, also in the middle of a round of picks.
import AristoteDispatcher.Lib.Rotation
import AristoteDispatcher.Strategy

open rotation runs
open aristote_dispatcher.settings

namespace aristote_dispatcher.strategy

/-- A round robin, with its picks since the servers were installed. -/
structure Rounds where
  round_robin : RoundRobin
  picks : List VLLMServer
  deriving DecidableEq

/-- A request is routed, or the pinger ends a round. -/
inductive RoundEvent
  | choose_server
  | ping (results : List Bool)
  deriving DecidableEq, Repr

/-- Right after `update_servers(servers)`. -/
def Rounds.installed (servers : List VLLMServer) : Rounds := ⟨.create servers, []⟩

/-- The pinger finds the installed servers again at each round. -/
def Rounds.step (configured servers : List VLLMServer) (s : Rounds) : RoundEvent → Option Rounds
  | .choose_server => some
    { round_robin := s.round_robin.choose_server.2
      picks := s.picks ++ s.round_robin.choose_server.1.toOption.toList }
  | .ping results =>
    if healthy_servers configured results = servers then
      (s.round_robin.step configured (.ping results)).map fun round_robin =>
        { s with round_robin := round_robin }
    else none

/-- No two servers are more than one pick apart. -/
def Fair (servers picks : List VLLMServer) : Prop :=
  ∀ a ∈ servers, ∀ b ∈ servers, picks.count a ≤ picks.count b + 1

/-- A pick comes where the picks so far left off: no update set the index back within the
round of picks. -/
def GoesOn (s : Rounds) : RoundEvent → Prop
  | .choose_server => s.round_robin.round_robin_idx = s.picks.length % s.round_robin.servers.length
  | .ping _ => True

theorem healthy_sublist (configured : List VLLMServer) (results : List Bool) :
    (healthy_servers configured results).Sublist configured := by
  unfold healthy_servers
  induction configured generalizing results with
  | nil => simp
  | cons server configured ih =>
    cases results with
    | nil => simp
    | cons result results =>
      rw [List.zip_cons_cons, List.filter_cons]
      split
      · exact (ih results).cons_cons server
      · exact (ih results).cons server

/-- The servers that the pinger installs are distinct. -/
theorem nodup_healthy (cfg : Settings) (results : List Bool) :
    (healthy_servers cfg.VLLM_SERVERS results).Nodup :=
  (healthy_sublist cfg.VLLM_SERVERS results).nodup cfg.urls_nodup.of_map

/-! ## Picks in turn -/

/-- The picks were made in turn, and the index is where they left off or back at 0. -/
structure InTurn (servers : List VLLMServer) (s : Rounds) : Prop where
  current : s.round_robin.servers = servers
  picks : s.picks = turns servers s.picks.length
  idx : s.round_robin.round_robin_idx = s.picks.length % servers.length ∨
    s.round_robin.round_robin_idx = 0

variable {configured servers : List VLLMServer} {s s' : Rounds}

theorem inTurn_installed (servers : List VLLMServer) : InTurn servers (.installed servers) :=
  ⟨rfl, (turns_zero servers).symm, .inr rfl⟩

/-- What a pick does: the server at the index, and the index one on. -/
theorem choose_server_at {self : RoundRobin} {i : Nat} (hs : self.servers = servers)
    (hi : i < servers.length) (hidx : self.round_robin_idx = i) :
    self.choose_server =
      (.ok servers[i], { self with round_robin_idx := (i + 1) % servers.length }) := by
  subst hs
  subst hidx
  have hne : self.servers ≠ [] := List.ne_nil_of_length_pos (by omega)
  unfold RoundRobin.choose_server
  rw [if_neg hne, List.getElem?_eq_getElem hi]

theorem inTurn_step (hne : servers ≠ []) (h : InTurn servers s) {e : RoundEvent}
    (hok : GoesOn s e) (hs : s.step configured servers e = some s') : InTurn servers s' := by
  have hpos := List.length_pos_of_ne_nil hne
  cases e with
  | ping results =>
    obtain ⟨hsame, hs⟩ := Option.ite_none_right_eq_some.mp hs
    obtain ⟨round_robin, hstep, rfl⟩ := Option.map_eq_some_iff.mp hs
    obtain ⟨_, heq⟩ := Option.ite_none_right_eq_some.mp hstep
    cases heq
    exact ⟨hsame, h.picks, .inr rfl⟩
  | choose_server =>
    cases hs
    have hidx : s.round_robin.round_robin_idx = s.picks.length % servers.length := by
      simpa [GoesOn, h.current] using hok
    have hlt : s.picks.length % servers.length < servers.length := Nat.mod_lt _ hpos
    have hchoose := choose_server_at h.current hlt hidx
    refine ⟨?_, ?_, .inl ?_⟩
    · rw [hchoose]
      exact h.current
    · rw [hchoose]
      simp only [Except.toOption, Option.toList_some, List.length_append, List.length_singleton]
      rw [turns_succ hlt, ← h.picks]
    · rw [hchoose]
      simp [Except.toOption]

theorem fair_of_inTurn (hnodup : servers.Nodup) (h : InTurn servers s) :
    Fair servers s.picks := by
  intro a ha b hb
  rw [h.picks]
  exact turns_fair hnodup ha hb _

/-- A pick after the index was set back within a round is not fair. -/
theorem unfair_of_restart (hnodup : servers.Nodup) (hne : servers ≠ []) (h : InTurn servers s)
    (hnot : ¬GoesOn s .choose_server) (hs : s.step configured servers .choose_server = some s') :
    ¬Fair servers s'.picks := by
  have hpos := List.length_pos_of_ne_nil hne
  cases hs
  have hnot : s.round_robin.round_robin_idx ≠ s.picks.length % servers.length := by
    simpa [GoesOn, h.current] using hnot
  have hidx : s.round_robin.round_robin_idx = 0 := h.idx.resolve_left hnot
  have hchoose := choose_server_at h.current hpos hidx
  intro hfair
  have hrestart := restart_unfair hnodup (n := s.picks.length) (by omega) hpos
  have hle := hfair servers[0] (List.getElem_mem _) (servers[servers.length - 1])
    (List.getElem_mem _)
  rw [hchoose] at hle
  simp only [Except.toOption, Option.toList_some] at hle
  rw [← h.picks] at hrestart
  omega

/-! ## The law -/

/-- In every run whose picks all go on where the ones before left off, the picks are fair in
every state; and the first pick that does not go on there makes them unfair. -/
theorem picks_are_fair_while_they_go_on (cfg : Settings) (installed : List Bool)
    (hne : healthy_servers cfg.VLLM_SERVERS installed ≠ []) {es : List RoundEvent} {s : Rounds}
    (h : Run (Rounds.step cfg.VLLM_SERVERS (healthy_servers cfg.VLLM_SERVERS installed)) GoesOn
      (.installed (healthy_servers cfg.VLLM_SERVERS installed)) es s) :
    Fair (healthy_servers cfg.VLLM_SERVERS installed) s.picks ∧
    ∀ s', s.step cfg.VLLM_SERVERS (healthy_servers cfg.VLLM_SERVERS installed) .choose_server =
        some s' →
      (Fair (healthy_servers cfg.VLLM_SERVERS installed) s'.picks ↔ GoesOn s .choose_server) := by
  have hnodup := nodup_healthy cfg installed
  have hturn : InTurn (healthy_servers cfg.VLLM_SERVERS installed) s :=
    h.invariant (inTurn_installed _) fun _ _ _ hi hok hs => inTurn_step hne hi hok hs
  refine ⟨fair_of_inTurn hnodup hturn, fun s' hs => ⟨fun hfair => ?_, fun hok => ?_⟩⟩
  · by_contra hnot
    exact unfair_of_restart hnodup hne hturn hnot hs hfair
  · exact fair_of_inTurn hnodup (inTurn_step hne hturn hok hs)

/-- Two servers, with round robin. -/
abbrev twoServers : List VLLMServer :=
  (twoServerSettings .round_robin .warning_log).VLLM_SERVERS

theorem two_picks_between_pings_are_fair : ∃ s,
    exec (Rounds.step twoServers twoServers) (.installed twoServers)
      [.choose_server, .choose_server, .ping [true, true]] = some s ∧
    Fair twoServers s.picks := by
  have hfirst : Run (Rounds.step twoServers twoServers) GoesOn (.installed twoServers)
      [.choose_server] ⟨⟨twoServers, 1⟩, turns twoServers 1⟩ := .single rfl rfl
  have hsecond : Run (Rounds.step twoServers twoServers) GoesOn
      ⟨⟨twoServers, 1⟩, turns twoServers 1⟩ [.choose_server]
      ⟨⟨twoServers, 0⟩, turns twoServers 2⟩ := .single rfl rfl
  have hping : Run (Rounds.step twoServers twoServers) GoesOn ⟨⟨twoServers, 0⟩, turns twoServers 2⟩
      [.ping [true, true]] ⟨⟨twoServers, 0⟩, turns twoServers 2⟩ := .single trivial rfl
  exact ⟨_, rfl, (picks_are_fair_while_they_go_on (twoServerSettings .round_robin .warning_log)
    [true, true] (by decide) ((hfirst.append hsecond).append hping)).1⟩

/-- A round of pings between two picks: the first server is picked twice, the second never. -/
theorem a_ping_within_a_round_is_unfair :
    ¬∀ (cfg : Settings) (installed : List Bool),
      healthy_servers cfg.VLLM_SERVERS installed ≠ [] → ∀ es s,
      exec (Rounds.step cfg.VLLM_SERVERS (healthy_servers cfg.VLLM_SERVERS installed))
        (.installed (healthy_servers cfg.VLLM_SERVERS installed)) es = some s →
      Fair (healthy_servers cfg.VLLM_SERVERS installed) s.picks := by
  intro h
  have hfair := h (twoServerSettings .round_robin .warning_log) [true, true] (by decide)
    [.choose_server, .ping [true, true], .choose_server] _ rfl
    ⟨"http://a", none, "org", 1⟩ (by decide) ⟨"http://b", none, "org", 1⟩ (by decide)
  revert hfair
  decide

end aristote_dispatcher.strategy
