import TronRs.L3Actuators.Runs

/-!
# The life of a proposal

The runs of the three proposal contracts and of the registration of witnesses, with any block
times between them. What a step can do to the proposals is said once, by `ProposalStep`:
nothing, one more proposal under the next id, or a revision of one that is open.

* `proposal_life_cycle`: the stored ids are those up to the counter, only witnesses approve and
  each at most once, the terms of a proposal are fixed, and a canceled or expired one is left
  alone, as long as the counter of ids does not overflow.
* `proposal_id_overflows`: the counter is a 64-bit number and wraps.
-/
namespace TronRs

open TronRs.Core
open Platform (blank)

/-- Both have the same id, proposer, parameters and times. -/
structure Proposal.SameTerms (p q : Proposal) : Prop where
  id : q.proposalId = p.proposalId
  proposer : q.proposerAddress = p.proposerAddress
  parameters : q.parameters = p.parameters
  created : q.createTime = p.createTime
  expires : q.expirationTime = p.expirationTime

/-- The witness is registered. -/
def WorldState.Registered (s : WorldState) (a : Bytes) : Prop := (s.witness.get a).isSome = true

/-- What later becomes of a stored proposal. -/
structure Proposal.Continues (p q : Proposal) : Prop where
  terms : p.SameTerms q
  canceled : p.state = proposalCanceled → q = p

lemma Proposal.Continues.refl (p : Proposal) : p.Continues p := ⟨⟨rfl, rfl, rfl, rfl, rfl⟩, fun _ => rfl⟩

lemma Proposal.Continues.trans {p q r : Proposal} (h : p.Continues q) (h' : q.Continues r) : p.Continues r where
  terms := ⟨h'.terms.id.trans h.terms.id, h'.terms.proposer.trans h.terms.proposer,
    h'.terms.parameters.trans h.terms.parameters, h'.terms.created.trans h.terms.created,
    h'.terms.expires.trans h.terms.expires⟩
  canceled hp := by obtain rfl := h.canceled hp; exact h'.canceled hp

/-- A proposal that `openProposal` lets through. -/
structure Proposal.Open (p : Proposal) (s : WorldState) : Prop where
  unexpired : s.getProp .latestBlockHeaderTimestamp < p.expirationTime
  standing : p.state ≠ proposalCanceled

/-- The approvals of a revised proposal. -/
structure Proposal.ApprovedAs (s : WorldState) (p q : Proposal) : Prop where
  nodup : p.approvals.Nodup → q.approvals.Nodup
  registered : ∀ a ∈ q.approvals, a ∈ p.approvals ∨ s.Registered a

/-- What a step does to the proposals and their counter. -/
inductive ProposalStep (s t : WorldState) : Prop where
  | idle : t.proposal = s.proposal → t.getProp .latestProposalNum = s.getProp .latestProposalNum → ProposalStep s t
  | create (p : Proposal) : s.getProp .latestProposalNum < Int64.maxValue →
      p.proposalId = s.getProp .latestProposalNum + 1 → p.approvals = [] →
      t.proposal = s.proposal.put p.proposalId p → t.getProp .latestProposalNum = p.proposalId → ProposalStep s t
  | revise (id : Int64) (p q : Proposal) : s.getProposal id = some p → p.Open s →
      t.proposal = s.proposal.put p.proposalId q → t.getProp .latestProposalNum = s.getProp .latestProposalNum →
      p.SameTerms q → p.ApprovedAs s q → ProposalStep s t

section
variable {s t : WorldState} {res : ExecutionResult} {v : Int64}
variable {id : Int64} {p : Proposal} {c : ProposalApproveContract}

lemma openProposal_eq_ok (h : openProposal id p s = .ok ()) : p.Open s := by
  simp only [openProposal, check_rules] at h; obtain ⟨_, ht, hc⟩ := h; exact ⟨ht, hc⟩

/-! ## The contracts -/

lemma ProposalCreateActuator.proposalStep {c : ProposalCreateContract}
    (hroom : s.getProp .latestProposalNum < Int64.maxValue) (hx : execute c s = .ok res t) :
    ProposalStep s t ∧ t.witness = s.witness := by
  apply ok_elim hx; simp only [execute, ok_rules]; intro owner _ expires _
  exact ⟨.create _ hroom rfl rfl rfl (getProp_putProp_self ..), rfl⟩

lemma ProposalApproveActuator.validate_ok (hv : validate c s = .ok v) :
    ∃ owner p, Address.ofBytes c.ownerAddress = some owner ∧ s.Registered owner.asBytes ∧
      s.getProposal c.proposalId = some p ∧ p.Open s ∧ (c.isAddApproval = true → owner.asBytes ∉ p.approvals) := by
  simp only [validate, check_rules] at hv; obtain ⟨owner, ho, _, hw, p, hp, _, hopen, hv⟩ := hv
  refine ⟨owner, p, proposalOwner_eq_ok ho, hw, existingProposal_eq_ok hp, openProposal_eq_ok hopen, fun hadd => ?_⟩
  rw [if_pos hadd, bind_eq_ok] at hv; obtain ⟨_, hv, -⟩ := hv; simpa using ensure_eq_ok.mp hv

lemma ProposalApproveActuator.proposalStep (hv : validate c s = .ok v)
    (hx : execute c s = .ok res t) : ProposalStep s t ∧ t.witness = s.witness := by
  obtain ⟨owner, p, ho, hw, hp, hopen, hnew⟩ := validate_ok hv
  apply ok_elim hx
  simp only [execute, ok_rules, parseAddress_eq_ok, ho, hp, Option.some.injEq, forall_eq']
  refine ⟨.revise c.proposalId p _ hp hopen rfl rfl ⟨rfl, rfl, rfl, rfl, rfl⟩ ⟨fun hnodup => ?_, fun a ha => ?_⟩, rfl⟩
  · split
    · rename_i hadd; rw [← List.concat_eq_append]; exact hnodup.concat (hnew hadd)
    · exact hnodup.filter _
  · split at ha
    · rcases List.mem_append.mp ha with ha | ha
      · exact .inl ha
      · rw [List.mem_singleton.mp ha]; exact .inr hw
    · exact .inl (List.mem_of_mem_filter ha)

lemma ProposalDeleteActuator.validate_ok {c : ProposalDeleteContract} (hv : validate c s = .ok v) :
    ∃ p, s.getProposal c.proposalId = some p ∧ p.Open s := by
  simp only [validate, bind_eq_ok] at hv; obtain ⟨-, -, p, hp, _, -, _, hopen, -⟩ := hv
  exact ⟨p, existingProposal_eq_ok hp, openProposal_eq_ok hopen⟩

lemma ProposalDeleteActuator.proposalStep {c : ProposalDeleteContract} (hv : validate c s = .ok v)
    (hx : execute c s = .ok res t) : ProposalStep s t ∧ t.witness = s.witness := by
  obtain ⟨p, hp, hopen⟩ := validate_ok hv; apply ok_elim hx
  simp only [execute, ok_rules, hp, Option.some.injEq, forall_eq']
  exact ⟨.revise c.proposalId p _ hp hopen rfl rfl ⟨rfl, rfl, rfl, rfl, rfl⟩ ⟨id, fun _ => .inl⟩, rfl⟩

lemma WitnessCreateActuator.proposalStep {c : WitnessCreateContract} (hx : execute c s = .ok res t) :
    ProposalStep s t ∧ ∃ w, t.witness = s.witness.put w.address w := by
  apply ok_elim hx; simp only [execute, ok_rules]; intro owner _ x _ balance _
  exact ⟨.idle rfl (getProp_putProp_of_ne _ _ (by decide)), _, rfl⟩

/-! ## Runs -/

def proposalTypes : List ContractType := [.proposalCreate, .proposalApprove, .proposalDelete, .witnessCreate]

/-- There has been no proposal. -/
structure NoProposals (s : WorldState) : Prop where
  stored : ∀ id, s.getProposal id = none
  counter : s.getProp .latestProposalNum = 0

/-- The proposal contracts and the registration of witnesses, at any block times. -/
def proposalRuns (pf : Platform) : Lts WorldState ContractStep :=
  contractRuns pf proposalTypes (fun k _ => k = .latestBlockHeaderTimestamp) NoProposals

/-- A new proposal finds a number. -/
def FindsNumber (s : WorldState) : ContractStep → Prop
  | .apply .proposalCreate _ => s.getProp .latestProposalNum < Int64.maxValue
  | _ => True

instance (s : WorldState) (l : ContractStep) : Decidable (FindsNumber s l) := by
  unfold FindsNumber
  split <;> infer_instance

/-- The stored ids are those up to the counter. -/
def IdsUpToCounter (s : WorldState) : Prop :=
  ∀ id, (s.getProposal id).isSome = true ↔ 1 ≤ id ∧ id ≤ s.getProp .latestProposalNum

/-- What holds of the proposals between the steps. -/
structure ProposalsInv (s : WorldState) : Prop where
  counter : 0 ≤ (s.getProp .latestProposalNum).toInt
  ids : IdsUpToCounter s
  keys : ∀ id p, s.getProposal id = some p → p.proposalId = id
  approvals : ∀ id p, s.getProposal id = some p → p.approvals.Nodup ∧ ∀ a ∈ p.approvals, s.Registered a

variable {pf : Platform} {l : ContractStep}

lemma NoProposals.inv (h : NoProposals s) : ProposalsInv s where
  counter := by rw [h.counter]; decide
  ids id := by
    rw [h.stored, h.counter, le_iff_toInt_le, le_iff_toInt_le, toInt_zero]
    have hone := Int64.toInt_one
    simp only [Option.isSome_none, Bool.false_eq_true, false_iff]; omega
  keys id p hp := by rw [h.stored] at hp; cases hp
  approvals id p hp := by rw [h.stored] at hp; cases hp

lemma WorldState.Registered.of_eq {a : Bytes} (h : s.Registered a) (hw : t.witness = s.witness) : t.Registered a := by
  rwa [WorldState.Registered, hw]

lemma proposalStep_of_run {ty : ContractType} {a : Actuator (Message ty)} {c : Message ty} (hty : ty ∈ proposalTypes)
    (hr : route pf ty = some a) (hroom : FindsNumber s (.apply ty c)) (hv : a.validate c s = .ok v)
    (hx : a.execute c s = .ok res t) : ProposalStep s t ∧ ∀ b, s.Registered b → t.Registered b := by
  cases ty <;> cases hr
  case proposalCreate =>
    obtain ⟨hstep, hw⟩ := ProposalCreateActuator.proposalStep hroom hx
    exact ⟨hstep, fun _ h => h.of_eq hw⟩
  case proposalApprove =>
    obtain ⟨hstep, hw⟩ := ProposalApproveActuator.proposalStep hv hx
    exact ⟨hstep, fun _ h => h.of_eq hw⟩
  case proposalDelete =>
    obtain ⟨hstep, hw⟩ := ProposalDeleteActuator.proposalStep hv hx
    exact ⟨hstep, fun _ h => h.of_eq hw⟩
  case witnessCreate =>
    obtain ⟨hstep, w, hw⟩ := WitnessCreateActuator.proposalStep hx
    refine ⟨hstep, fun b hb => ?_⟩; rw [WorldState.Registered, hw, get_put]
    split
    · rfl
    · exact hb
  all_goals exact absurd hty (by decide)

lemma proposalStep_of_step (h : ((proposalRuns pf).guard FindsNumber).step s l t) :
    ProposalStep s t ∧ ∀ b, s.Registered b → t.Registered b := by
  obtain ⟨hroom, h⟩ := h
  cases l with
  | setProperty =>
    obtain ⟨rfl, rfl⟩ := h; exact ⟨.idle rfl (getProp_putProp_of_ne _ _ (by decide)), fun _ => id⟩
  | apply =>
    obtain ⟨hty, a, res, hr, hx⟩ := h
    obtain ⟨⟨v, hv⟩, hx⟩ := Actuator.run_ok hx; exact proposalStep_of_run hty hr hroom hv hx

/-- What a step does to a stored proposal: nothing, unless it is open. -/
lemma ProposalStep.continues (h : ProposalStep s t) (hs : ProposalsInv s)
    (hp : s.getProposal id = some p) : ∃ q, t.getProposal id = some q ∧ p.Continues q ∧ (¬ p.Open s → q = p) := by
  unfold WorldState.getProposal at hp ⊢
  cases h with
  | idle hprop _ => exact ⟨p, by rw [hprop, hp], .refl p, fun _ => rfl⟩
  | create r hroom hid _ hprop _ =>
    -- the new id is above the counter, so nothing is stored under it
    have hne : id ≠ r.proposalId := by
      intro heq; have hle := ((hs.ids id).mp (Option.isSome_of_eq_some hp)).2
      rw [heq, hid, le_iff_toInt_le, Int64.toInt_add_one_iff.mpr (Int64.ne_of_lt hroom)] at hle; omega
    exact ⟨p, by rw [hprop, get_put_of_ne hne, hp], .refl p, fun _ => rfl⟩
  | revise id' p' q hp' hopen hprop _ hterms _ =>
    rw [hs.keys id' p' hp'] at hprop
    by_cases heq : id = id'
    · obtain rfl := heq; cases hp.symm.trans hp'
      refine ⟨q, by rw [hprop, get_put_self], ⟨hterms, fun hc => absurd hc hopen.standing⟩, ?_⟩
      exact fun hclosed => absurd hopen hclosed
    · exact ⟨p, by rw [hprop, get_put_of_ne heq, hp], .refl p, fun _ => rfl⟩

/-- The invariant after one proposal has been written under `id`, with what has to hold of it. -/
lemma ProposalsInv.write (hs : ProposalsInv s) (hw : ∀ b, s.Registered b → t.Registered b) {q : Proposal}
    (hprop : t.proposal = s.proposal.put q.proposalId q) (hcounter : 0 ≤ (t.getProp .latestProposalNum).toInt)
    (hids : ∀ id, id = q.proposalId ∨ (1 ≤ id ∧ id ≤ s.getProp .latestProposalNum) ↔
      1 ≤ id ∧ id ≤ t.getProp .latestProposalNum)
    (happ : q.approvals.Nodup ∧ ∀ a ∈ q.approvals, s.Registered a) : ProposalsInv t := by
  have hget : ∀ id, t.getProposal id = if id = q.proposalId then some q else s.getProposal id := by
    intro id; unfold WorldState.getProposal; rw [hprop, get_put]
  have hcases : ∀ id p, t.getProposal id = some p → (id = q.proposalId ∧ p = q) ∨ s.getProposal id = some p := by
    intro id p hp; rw [hget] at hp
    split at hp
    · exact .inl ⟨by assumption, (Option.some.inj hp).symm⟩
    · exact .inr hp
  refine ⟨hcounter, fun id => ?_, fun id p hp => ?_, fun id p hp => ?_⟩
  · rw [← hids, ← hs.ids, hget]; by_cases heq : id = q.proposalId <;> simp [heq]
  · rcases hcases id p hp with ⟨rfl, rfl⟩ | hold
    · rfl
    · exact hs.keys id p hold
  · rcases hcases id p hp with ⟨-, rfl⟩ | hold
    · exact ⟨happ.1, fun a ha => hw a (happ.2 a ha)⟩
    · obtain ⟨hnodup, hreg⟩ := hs.approvals id p hold
      exact ⟨hnodup, fun a ha => hw a (hreg a ha)⟩

lemma ProposalStep.inv (h : ProposalStep s t) (hw : ∀ b, s.Registered b → t.Registered b) (hs : ProposalsInv s) :
    ProposalsInv t := by
  cases h with
  | idle hprop hnum =>
    have hget : ∀ id, t.getProposal id = s.getProposal id := fun id => congrArg (Column.get · id) hprop
    refine ⟨by rw [hnum]; exact hs.counter, fun id => ?_, fun id p hp => ?_, fun id p hp => ?_⟩
    · rw [hget, hnum]; exact hs.ids id
    · exact hs.keys id p (by rw [← hget, hp])
    · obtain ⟨hnodup, hreg⟩ := hs.approvals id p (by rw [← hget, hp])
      exact ⟨hnodup, fun a ha => hw a (hreg a ha)⟩
  | create r hroom hid hnil hprop hnum =>
    have hnext := Int64.toInt_add_one_iff.mpr (Int64.ne_of_lt hroom)
    have hcounter := hs.counter
    have hone := Int64.toInt_one; rw [← hid] at hnext
    refine hs.write hw hprop (by rw [hnum]; omega) (fun id => ?_) (by simp [hnil])
    rw [hnum, le_iff_toInt_le, le_iff_toInt_le, le_iff_toInt_le, ← toInt_inj]; omega
  | revise id p q hp hopen hprop hnum hterms happ =>
    have hkey := hs.keys id p hp
    obtain ⟨hnodup, hreg⟩ := hs.approvals id p hp
    have hstored := (hs.ids id).mp (Option.isSome_of_eq_some hp)
    rw [← hterms.id] at hprop hkey
    refine hs.write hw hprop (by rw [hnum]; exact hs.counter) (fun id' => ?_) ⟨happ.nodup hnodup, fun a ha => ?_⟩
    · rw [hnum, hkey]
      constructor
      · rintro (rfl | h)
        · exact hstored
        · exact h
      · exact .inr
    · rcases happ.registered a ha with ha | ha
      · exact hreg a ha
      · exact ha

lemma ProposalsInv.step (hs : ProposalsInv s) (h : ((proposalRuns pf).guard FindsNumber).step s l t) :
    ProposalsInv t := by
  obtain ⟨hstep, hw⟩ := proposalStep_of_step h; exact hstep.inv hw hs

lemma ProposalsInv.continues {ls : List ContractStep} (hs : ProposalsInv s)
    (h : ((proposalRuns pf).guard FindsNumber).Run s ls t)
    (hp : s.getProposal id = some p) : ∃ q, t.getProposal id = some q ∧ p.Continues q := by
  have hkept : ∀ u l u', (ProposalsInv u ∧ ∃ q, u.getProposal id = some q ∧ p.Continues q) →
      ((proposalRuns pf).guard FindsNumber).step u l u' →
      ProposalsInv u' ∧ ∃ q, u'.getProposal id = some q ∧ p.Continues q := by
    intro u l u' hu hstep; obtain ⟨hinv, q, hq, hcont⟩ := hu
    obtain ⟨r, hr, hcont', -⟩ := (proposalStep_of_step hstep).1.continues hinv hq
    exact ⟨hinv.step hstep, r, hr, hcont.trans hcont'⟩
  exact (h.preserves hkept ⟨hs, p, hp, .refl p⟩).2

/-- **The life of a proposal.** After every run from a state without proposals whose new proposals all find a number:
the stored ids are those up to the counter; approvals are by registered witnesses, each once; whatever happens next,
a proposal keeps its terms and stays as it is once canceled; and no step changes one that has expired. -/
theorem proposal_life_cycle {ls : List ContractStep} (hs : NoProposals s)
    (hrun : ((proposalRuns pf).guard FindsNumber).Run s ls t) :
    (∀ id, (t.getProposal id).isSome = true ↔ 1 ≤ id ∧ id ≤ t.getProp .latestProposalNum) ∧
    (∀ id p, t.getProposal id = some p → p.approvals.Nodup ∧ ∀ a ∈ p.approvals, t.Registered a) ∧
    (∀ id p ls' u, t.getProposal id = some p → ((proposalRuns pf).guard FindsNumber).Run t ls' u →
      ∃ q, u.getProposal id = some q ∧ p.SameTerms q ∧ (p.state = proposalCanceled → q = p)) ∧
    ∀ id p l u, t.getProposal id = some p → ((proposalRuns pf).guard FindsNumber).step t l u →
      p.expirationTime ≤ t.getProp .latestBlockHeaderTimestamp → u.getProposal id = some p := by
  have hinv : ProposalsInv t := hrun.preserves (fun _ _ _ h => h.step) hs.inv
  refine ⟨hinv.ids, hinv.approvals, fun id p ls' u hp hrun' => ?_, fun id p l u hp hstep hexp => ?_⟩
  · obtain ⟨q, hq, hcont⟩ := hinv.continues hrun' hp
    exact ⟨q, hq, hcont.terms, hcont.canceled⟩
  · obtain ⟨q, hq, -, hclosed⟩ := (proposalStep_of_step hstep).1.continues hinv hp
    obtain rfl := hclosed fun hopen => Int64.not_lt.mpr hexp hopen.unexpired
    exact hq

end

/-! ## One witness -/

/-- One account, which is a witness. -/
def committee : WorldState where
  account := Column.put ∅ (Address.ofNat 0xaa) {}
  witness := Column.put ∅ (Address.ofNat 0xaa).asBytes { address := (Address.ofNat 0xaa).asBytes }

def proposeOne : ProposalCreateContract := { ownerAddress := (Address.ofNat 0xaa).asBytes, parameters := [(0, 1)] }

def approveFirst : ProposalApproveContract :=
  { ownerAddress := (Address.ofNat 0xaa).asBytes, proposalId := 1, isAddApproval := true }

lemma noProposals_committee : NoProposals committee := ⟨fun _ => get_empty _, rfl⟩

/-- A proposal, approved by its proposer. -/
theorem proposal_life_cycle_approved : ∃ t p, ((proposalRuns blank).guard FindsNumber).Run committee
      [.apply .proposalCreate proposeOne, .apply .proposalApprove approveFirst] t ∧
    t.getProposal 1 = some p ∧ p.approvals = [(Address.ofNat 0xaa).asBytes] ∧ p.approvals.Nodup ∧
    ∀ a ∈ p.approvals, t.Registered a := by
  have h : (Lts.exec (Lts.guardStep FindsNumber (ContractStep.next blank proposalTypes
      fun k _ => k = .latestBlockHeaderTimestamp)) committee
      [.apply .proposalCreate proposeOne, .apply .proposalApprove approveFirst]).map
      (fun t => (t.getProposal 1).map Proposal.approvals) = some (some [(Address.ofNat 0xaa).asBytes]) := by
    decide +kernel
  obtain ⟨t, (hrun : ((proposalRuns blank).guard FindsNumber).Run committee _ t), ht⟩ :=
    ContractStep.exists_run h
  obtain ⟨p, hp, happ⟩ := Option.map_eq_some_iff.mp ht
  obtain ⟨-, hall, -⟩ := proposal_life_cycle noProposals_committee hrun
  exact ⟨t, p, hrun, hp, happ, hall 1 p hp⟩

/-- The one witness can propose at time zero. -/
structure CanPropose (s : WorldState) : Prop where
  account : s.accountExists (Address.ofNat 0xaa) = true
  witness : s.witnessExists (Address.ofNat 0xaa) = true
  time : s.getProp .latestBlockHeaderTimestamp = 0

/-- It proposes under the next id, whatever it is. -/
lemma CanPropose.propose {s : WorldState} (h : CanPropose s) :
    ∃ t, (proposalRuns blank).step s (.apply .proposalCreate proposeOne) t ∧ CanPropose t ∧
      t.getProp .latestProposalNum = s.getProp .latestProposalNum + 1 ∧
      (t.getProposal (s.getProp .latestProposalNum + 1)).isSome = true := by
  have ho := Address.ofBytes_asBytes (Address.ofNat 0xaa)
  have howner : proposalOwner proposeOne.ownerAddress s = .ok (Address.ofNat 0xaa) := by
    simp only [proposalOwner, check_rules, parseAddress_eq_ok]; exact ⟨_, ho, (), h.account, rfl⟩
  have hv : ProposalCreateActuator.validate proposeOne s = .ok 0 := by
    simp only [ProposalCreateActuator.validate, check_rules]
    exact ⟨_, howner, (), h.witness, (), List.cons_ne_nil _ _, (), rfl, trivial⟩
  have hadd : (s.getProp .latestBlockHeaderTimestamp).checkedAdd maintenanceTimeIntervalMs =
      some maintenanceTimeIntervalMs := by rw [h.time]; decide
  have hw : wp (ProposalCreateActuator.execute proposeOne) s (fun _ t => CanPropose t ∧
      t.getProp .latestProposalNum = s.getProp .latestProposalNum + 1 ∧
      (t.getProposal (s.getProp .latestProposalNum + 1)).isSome = true) fun _ _ => False := by
    simp only [ProposalCreateActuator.execute, proposeOne, parseAddress_ok ho, wp_bind, wp_lift, wp_get,
      wp_orThrow, wp_modify, wp_pure, hadd, Except.ok.injEq, Option.some.injEq, forall_eq', reduceCtorEq,
      false_implies, implies_true, and_true]
    refine ⟨⟨h.account, h.witness, ?_⟩, getProp_putProp_self .., ?_⟩
    · exact (getProp_putProp_of_ne _ _ (by decide)).trans h.time
    · exact Option.isSome_of_eq_some (get_put_self ..)
  obtain ⟨res, t, hx, hcan, hnum, hstored⟩ := exists_ok_of_wp hw
  exact ⟨t, ⟨by decide, _, res, rfl, (Actuator.run_of_validate hv).trans hx⟩, hcan, hnum, hstored⟩

lemma exists_run_proposals (n : Nat) (hn : n < 2 ^ 63) : ∃ ls t, (proposalRuns blank).Run committee ls t ∧
    CanPropose t ∧ (t.getProp .latestProposalNum).toInt = n := by
  induction n with
  | zero => exact ⟨[], _, .nil _, ⟨by decide, by decide, rfl⟩, rfl⟩
  | succ n ih =>
    obtain ⟨ls, s, hrun, hcan, hnum⟩ := ih (by omega)
    obtain ⟨t, hstep, hcan', hnext, -⟩ := hcan.propose
    have hone := Int64.toInt_one; refine ⟨_, t, hrun.snoc hstep, hcan', ?_⟩
    rw [hnext, toInt_add_of_fits ⟨by omega, by omega⟩]; omega

/-- When there are as many proposals as there are positive ids, the counter wraps, and the next proposal is stored
under a negative id. -/
theorem proposal_id_overflows : ∃ s ls t, NoProposals s ∧ (proposalRuns blank).Run s ls t ∧
    ¬ ∀ id, (t.getProposal id).isSome = true ↔ 1 ≤ id ∧ id ≤ t.getProp .latestProposalNum := by
  obtain ⟨ls, s, hrun, hcan, hnum⟩ := exists_run_proposals (2 ^ 63 - 1) (by omega)
  obtain ⟨t, hstep, -, -, hstored⟩ := hcan.propose
  refine ⟨_, _, t, noProposals_committee, hrun.snoc hstep, fun hids => ?_⟩
  have hmax : s.getProp .latestProposalNum = Int64.maxValue := toInt_inj.mp (hnum.trans (by decide))
  rw [hmax] at hstored; exact absurd ((hids _).mp hstored).1 (by decide)

end TronRs
