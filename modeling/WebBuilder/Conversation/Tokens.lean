/-
  WebBuilder.Conversation.Tokens — the token budget of a run.

  Compaction and the editor share two counters.  Compaction debits twice the
  bytes it may cost before it asks for a summary and credits back what the
  provider reports; the editor derives the output limit of each request from
  what is left.

  The provider is trusted in one point: no request uses more than it was
  admitted for (`Reported`).  A monitor carries that as its state, so what is
  shown of a step is shown under the reports before it.

  Main results:
    * `tokens_after_credit` — reserved, credited and recorded, a summary costs
      no more than its reservation;
    * `leads_askModel` — one request of the editor;
    * `token_budget_zero` — a budget of zero is not below itself;
    * `token_budget_kept` — every step of every conversation.
-/
import WebBuilder.Conversation.Rules

namespace WebBuilder.Conversation

open WebBuilder.Async

/-! ## §1. What is watched. -/

/-- Reported and reserved tokens are below the budget.  A budget that is not
positive stays untouched. -/
def Kept (cfg : Settings) (m : Metrics) : Prop :=
  (m.totalTokens + m.reservedTokens < cfg.tokenBudget ∨
    (cfg.tokenBudget ≤ 0 ∧ m.totalTokens + m.reservedTokens = 0)) ∧
    ∀ used reserved, m.tokenBudget ≠ some (.providerUsage used reserved)

/-- No request used more than it was admitted for. -/
def Reported (cfg : Settings) (st : EditStep) : Prop :=
  match st.op, st.answer with
  | .invoke messages limit, .ok (.response r) =>
      ∀ usage, r.usage = some usage → usage.totalTokens ≤ (estimateInputTokens cfg messages).1 + limit
  | .summarize previous rows, .ok (.response r) =>
      ∀ usage, r.usage = some usage → usage.totalTokens ≤ reservation previous rows
  | _, _ => True

/-- The output limit of a request of the editor. -/
def Dispatched (st : EditStep) : Prop :=
  match st.op with
  | .invoke _ limit => 1024 ≤ limit ∧ limit ≤ 8192
  | _ => True

/-- The state says whether all reports so far were right. -/
def spending (cfg : Settings) : Monitor Live Op Exc Reply Prop where
  next m st := m ∧ Reported cfg st
  ok m st := Dispatched st ∧ (m ∧ Reported cfg st → Kept cfg st.after.metrics)

/-- The budget is kept as far as the reports were right. -/
def Solvent (cfg : Settings) (s : Live) (m : Prop) : Prop := m → Kept cfg s.metrics

/-! ## §2. Arithmetic of one request. -/

/-- What is left after dropping rows is within the budget. -/
theorem affords_of_dropRows {cfg : Settings} {m : Metrics} {previous : Option Nat} {rows : List Nat} {row : Nat}
    {rest : List Nat} (h : dropRows cfg m previous rows = row :: rest) :
    m.affords cfg (reservation previous (row :: rest)) := by
  induction rows with
  | nil => cases h
  | cons first rows ih =>
      unfold dropRows at h
      split at h
      · rename_i hfits
        rw [← h]
        exact hfits
      · exact ih h

theorem reserve_below {cfg : Settings} {m : Metrics} {previous : Option Nat} {rows : List Nat}
    (h : dropRows cfg m previous rows ≠ []) :
    (m.reserve cfg previous rows).totalTokens + (m.reserve cfg previous rows).reservedTokens < cfg.tokenBudget := by
  unfold Metrics.reserve
  split
  · rename_i hnone
    exact absurd hnone h
  · rename_i row rest hrows
    have hfits := affords_of_dropRows hrows
    unfold Metrics.affords at hfits
    show m.totalTokens + (m.reservedTokens + reservation previous (row :: rest)) < cfg.tokenBudget
    omega

/-- **The debit** keeps the budget. -/
theorem kept_reserve {cfg : Settings} {m : Metrics} (h : Kept cfg m) (previous : Option Nat) (rows : List Nat) :
    Kept cfg (m.reserve cfg previous rows) := by
  by_cases hnone : dropRows cfg m previous rows = []
  · simp only [Metrics.reserve, hnone]
    exact h
  · refine ⟨.inl (reserve_below hnone), ?_⟩
    unfold Metrics.reserve
    split
    · exact h.2
    · exact h.2

/-- `usage.get('total_tokens', 0)`. -/
def totalOf (usage : Option Usage) : Int := (usage.map Usage.totalTokens).getD 0

theorem totalOf_le {usage : Option Usage} {bound : Int} (hpos : 0 ≤ bound)
    (h : ∀ u, usage = some u → u.totalTokens ≤ bound) : totalOf usage ≤ bound := by
  cases usage with
  | none => exact hpos
  | some u => exact h u rfl

/-- **The credit**: what a summary used is taken from its reservation. -/
theorem tokens_after_credit (m : Metrics) {reserved : Nat} {usage : Option Usage} (h : totalOf usage ≤ reserved) :
    (m.credit reserved usage).totalTokens + (m.credit reserved usage).reservedTokens + totalOf usage
        ≤ m.totalTokens + m.reservedTokens ∧
      (m.credit reserved usage).totalTokens + (m.credit reserved usage).reservedTokens
        ≤ m.totalTokens + m.reservedTokens ∧
      (m.credit reserved usage).tokenBudget = m.tokenBudget := by
  cases usage with
  | none => exact ⟨by simp [Metrics.credit, totalOf], le_refl _, rfl⟩
  | some u =>
      have htotal : totalOf (some u) = u.totalTokens := rfl
      rw [htotal] at h ⊢
      unfold Metrics.credit
      by_cases hpos : 0 ≤ u.totalTokens
      · have hmin : min u.totalTokens (reserved : Int) = u.totalTokens := min_eq_left h
        simp only [if_pos hpos, hmin]
        exact ⟨by omega, by omega, trivial⟩
      · simp only [if_neg hpos]
        exact ⟨by omega, le_refl _, trivial⟩

/-- What is recorded is added to the totals. -/
theorem addUsage_eq (m : Metrics) (usage : Option Usage) :
    (m.addUsage usage).totalTokens = m.totalTokens + totalOf usage ∧
      (m.addUsage usage).reservedTokens = m.reservedTokens ∧ (m.addUsage usage).tokenBudget = m.tokenBudget := by
  cases usage with
  | none => exact ⟨(add_zero _).symm, rfl, rfl⟩
  | some u => exact ⟨rfl, rfl, rfl⟩

/-- What an admitted request leaves, even if it uses all it may. -/
theorem room_of_outputLimit {cfg : Settings} {m : Metrics} {estimate : Nat} :
    m.outputLimit cfg estimate ≤ 8192 ∧
      m.totalTokens + m.reservedTokens + (estimate + m.outputLimit cfg estimate) < cfg.tokenBudget := by
  unfold Metrics.outputLimit
  have hleft := min_le_left (8192 : Int) (cfg.tokenBudget - m.totalTokens - m.reservedTokens - estimate - 1)
  have hright := min_le_right (8192 : Int) (cfg.tokenBudget - m.totalTokens - m.reservedTokens - estimate - 1)
  constructor
  · exact hleft
  · omega

/-! ## §3. The constructs. -/

section Tokens

variable {cfg : Settings} {s : Live} {m : Prop}

/-- The budget at every exception. -/
def Raising (cfg : Settings) : Exc → Live → Prop → Prop := fun _ => Solvent cfg

theorem leads_quiet {α : Type} {p : Edit α} (hp : p.All Idle) (h : Solvent cfg s m) :
    Leads Alone (spending cfg) (Raising cfg) p (fun _ => Solvent cfg) s m := by
  refine leads_idle hp (fun st m hidle hs => ?_) (fun _ _ _ hs => hs) h
  obtain ⟨hop, hsame⟩ := hidle
  have hkept : m ∧ Reported cfg st → Kept cfg st.after.metrics := fun hm => hsame ▸ hs hm.1
  refine ⟨⟨?_, hkept⟩, hkept⟩
  unfold Dispatched
  split
  · rename_i hinvoke
    rw [hinvoke] at hop
    exact hop.elim
  · trivial

/-- A step on the metrics. -/
theorem leads_metrics {α : Type} {f : Live → α × Live} {Q : α → Live → Prop → Prop}
    (hkept : m → Kept cfg (f s).2.metrics) (hQ : Q (f s).1 (f s).2 (m ∧ True)) :
    Leads Alone (spending cfg) (Raising cfg) (memory f) Q s m :=
  leads_memory fun _ => ⟨⟨trivial, fun hm => hkept hm.1⟩, hQ⟩

theorem leads_record {f : Metrics → Metrics} (hkept : m → Kept cfg (f s.metrics)) :
    Leads Alone (spending cfg) (Raising cfg) (record f) (fun _ => Solvent cfg) s m :=
  leads_metrics hkept fun hm => hkept hm.1

/-- **`record_usage`**, if what it adds is within the budget. -/
theorem leads_recordUsage {response : Response} (hstop : Solvent cfg s m) (hroom : m →
      s.metrics.totalTokens + s.metrics.reservedTokens + totalOf response.usage < cfg.tokenBudget) :
    Leads Alone (spending cfg) (Raising cfg) (recordUsage response) (fun _ s' m' => Solvent cfg s' m' ∧
      (m' → s'.metrics.totalTokens + s'.metrics.reservedTokens < cfg.tokenBudget)) s m := by
  obtain ⟨htotal, hreserved, htoken⟩ := addUsage_eq s.metrics response.usage
  have hbelow : m → (s.metrics.addUsage response.usage).totalTokens
      + (s.metrics.addUsage response.usage).reservedTokens < cfg.tokenBudget := by
    intro hm
    have hlt := hroom hm
    omega
  have hkept : m → Kept cfg (s.metrics.addUsage response.usage) := by
    intro hm
    refine ⟨.inl (hbelow hm), ?_⟩
    rw [htoken]
    exact (hstop hm).2
  refine Leads.bind (P := fun _ s' m' => Solvent cfg s' m' ∧
    (m' → s'.metrics.totalTokens + s'.metrics.reservedTokens < cfg.tokenBudget))
    (leads_metrics hkept ⟨fun hm => hkept hm.1, fun hm => hbelow hm.1⟩) fun _ s' m' hs => ?_
  split
  · exact hs.1
  · exact hs

/-- **One summary**: it gives back no more than it reserved. -/
theorem leads_summarize (previous : Option Nat) (rows : List Nat)
    (hbelow : m → s.metrics.totalTokens + s.metrics.reservedTokens < cfg.tokenBudget) (h : Solvent cfg s m) :
    Leads Alone (spending cfg) (Raising cfg) (summarize cfg previous rows) (fun _ => Solvent cfg) s m := by
  refine Leads.bind (P := fun response s' m' => s = s' ∧ (m' → m) ∧ (m' → totalOf response.usage ≤ reservation previous rows)) ?_ ?_
  · refine leads_observe ?_ fun e _ => ⟨⟨trivial, fun hm => h hm.1⟩, fun hm => h hm.1⟩
    intro d response hanswer
    cases d with
    | response r =>
        obtain rfl := Option.some.inj hanswer
        exact ⟨⟨trivial, fun hm => h hm.1⟩, rfl, And.left, fun hm => totalOf_le (Int.natCast_nonneg _) hm.2⟩
    | served | check | history | text | paths | result | saved => cases hanswer
  · rintro response _ m₁ ⟨rfl, hm, husage⟩
    -- the credit is taken back before the usage is added
    have hcredit : m₁ → Kept cfg (s.metrics.credit (reservation previous rows) response.usage) := by
      intro hm₁
      obtain ⟨_, hle, hstop⟩ := tokens_after_credit s.metrics (husage hm₁)
      have hlt := hbelow (hm hm₁)
      refine ⟨.inl (by omega), ?_⟩
      rw [hstop]
      exact (h (hm hm₁)).2
    refine Leads.bind (P := fun _ s' m' => Solvent cfg s' m' ∧ (m' →
        s'.metrics.totalTokens + s'.metrics.reservedTokens + totalOf response.usage < cfg.tokenBudget)) ?_ ?_
    · refine leads_metrics hcredit ⟨fun hm₁ => hcredit hm₁.1, fun hm₁ => ?_⟩
      obtain ⟨hle, _, _⟩ := tokens_after_credit s.metrics (husage hm₁.1)
      exact Int.lt_of_le_of_lt hle (hbelow (hm hm₁.1))
    · rintro _ s₂ m₂ ⟨hs₂, hroom⟩
      refine Leads.bind (leads_recordUsage hs₂ hroom) fun _ s₃ m₃ hs₃ => ?_
      split
      · exact hs₃.1
      · split
        · exact hs₃.1
        · refine Leads.bind (leads_quiet (all_observe trivial) hs₃.1) fun new s₄ m₄ hs₄ => ?_
          split
          · exact leads_record fun hm₄ => ⟨(hs₄ hm₄).1, (hs₄ hm₄).2⟩
          · exact hs₄

/-- **Compaction**, however it ends. -/
theorem leads_compact (history : History) (h : Solvent cfg s m) :
    Leads Alone (spending cfg) (Raising cfg) (compact cfg history) (fun _ => Solvent cfg) s m := by
  unfold compact
  split
  · exact h
  · rename_i rows _
    refine Leads.bind (P := fun rows' s' m' => Solvent cfg s' m' ∧ (rows' ≠ [] → m' →
        s'.metrics.totalTokens + s'.metrics.reservedTokens < cfg.tokenBudget)) ?_ ?_
    · refine leads_metrics (fun hm => kept_reserve (h hm) _ _) ⟨fun hm => kept_reserve (h hm.1) _ _, fun hne hm => ?_⟩
      exact reserve_below hne
    · rintro rows' s₁ m₁ ⟨hs₁, hbelow⟩
      cases rows' with
      | nil => exact hs₁
      | cons row rest =>
          refine Leads.tryCatch (leads_summarize _ _ (hbelow (List.cons_ne_nil _ _)) hs₁) fun e s₂ m₂ hs₂ => ?_
          split
          · exact leads_record fun hm => ⟨(hs₂ hm).1, (hs₂ hm).2⟩
          · exact hs₂

theorem leads_contextOf (h : Solvent cfg s m) :
    Leads Alone (spending cfg) (Raising cfg) (contextOf cfg) (fun _ => Solvent cfg) s m := by
  unfold contextOf
  split
  · refine Leads.bind (leads_quiet (all_observe trivial) h) fun history s₁ m₁ hs₁ => ?_
    refine Leads.bind (P := fun _ => Solvent cfg) ?_ fun _ s₂ m₂ hs₂ => leads_quiet (all_receive trivial) hs₂
    unfold onlyIf
    split
    · exact leads_compact history hs₁
    · exact hs₁
  · exact h

/-- **One request**: it is admitted, and what it reports is recorded. -/
theorem leads_askModel (messages : List Message) (h : Solvent cfg s m) :
    Leads Alone (spending cfg) (Raising cfg) (askModel cfg messages) (fun _ => Solvent cfg) s m := by
  unfold askModel
  split
  · exact h
  · refine Leads.bind (P := fun limit s' m' => Solvent cfg s' m' ∧ ∀ l, limit = some l → 1024 ≤ l ∧ l ≤ 8192 ∧
        s'.metrics.totalTokens + s'.metrics.reservedTokens + ((estimateInputTokens cfg messages).1 + l)
          < cfg.tokenBudget) ?_ ?_
    · obtain ⟨hle, hroom⟩ := @room_of_outputLimit cfg s.metrics (estimateInputTokens cfg messages).1
      by_cases hsmall : s.metrics.outputLimit cfg (estimateInputTokens cfg messages).1 < 1024
      · refine leads_metrics (fun hm => ?_) ?_
        · rw [if_pos hsmall]
          exact ⟨(h hm).1, nofun⟩
        · rw [if_pos hsmall]
          exact ⟨fun hm => ⟨(h hm.1).1, nofun⟩, nofun⟩
      · refine leads_metrics (fun hm => ?_) ?_
        · rw [if_neg hsmall]
          exact h hm
        · rw [if_neg hsmall]
          refine ⟨fun hm => h hm.1, fun l hl => ?_⟩
          obtain rfl := Option.some.inj hl
          exact ⟨Int.not_lt.mp hsmall, hle, hroom⟩
    · rintro limit s₁ m₁ ⟨hs₁, hlimit⟩
      cases limit with
      | none => exact hs₁
      | some l =>
          obtain ⟨hleast, hmost, hroom⟩ := hlimit l rfl
          refine Leads.bind (P := fun response s' m' => Solvent cfg s' m' ∧ (m' →
              s'.metrics.totalTokens + s'.metrics.reservedTokens + totalOf response.usage < cfg.tokenBudget)) ?_ ?_
          · refine leads_observe ?_ fun e _ => ⟨⟨⟨hleast, hmost⟩, fun hm => hs₁ hm.1⟩, fun hm => hs₁ hm.1⟩
            intro d response hanswer
            cases d with
            | response r =>
                obtain rfl := Option.some.inj hanswer
                refine ⟨⟨⟨hleast, hmost⟩, fun hm => hs₁ hm.1⟩, fun hm => hs₁ hm.1, fun hm => ?_⟩
                have hused : totalOf r.usage ≤ (estimateInputTokens cfg messages).1 + l :=
                  totalOf_le (by omega) hm.2
                omega
            | served | check | history | text | paths | result | saved => cases hanswer
          · rintro response s₂ m₂ ⟨hs₂, hused⟩
            refine Leads.bind (leads_recordUsage hs₂ hused) fun _ s₃ m₃ hs₃ => ?_
            refine Leads.bind (P := fun _ => Solvent cfg) ?_ fun overrun s₄ m₄ hs₄ => ?_
            · -- the stop after a request is not reached
              by_cases hover : cfg.tokenBudget ≤ s₃.metrics.totalTokens + s₃.metrics.reservedTokens
              · have hno : ¬ m₃ := fun hm => absurd (hs₃.2 hm) (Int.not_lt.mpr hover)
                exact leads_metrics (fun hm => absurd hm hno) fun hm => absurd hm.1 hno
              · refine leads_metrics ?_ ?_
                · rw [if_neg hover]
                  exact hs₃.1
                · rw [if_neg hover]
                  exact fun hm => hs₃.1 hm.1
            · split
              · exact hs₄
              · split
                · exact Leads.bind (leads_record fun hm => ⟨(hs₄ hm).1, nofun⟩) fun _ s₅ m₅ hs₅ => hs₅
                · exact hs₄

/-- **One tool call**: the counters of tokens do not move. -/
theorem leads_runCall (call : Call) (ed : Editor) (h : Solvent cfg s m) :
    Leads Alone (spending cfg) (Raising cfg) (runCall cfg call ed) (fun _ => Solvent cfg) s m := by
  refine Leads.bind (P := fun _ => Solvent cfg)
    (leads_metrics (fun hm => ⟨(h hm).1, (h hm).2⟩) fun hm => ⟨(h hm.1).1, (h hm.1).2⟩) fun counts s₁ m₁ hs₁ => ?_
  obtain ⟨calls, revision⟩ := counts
  dsimp only
  split
  · exact hs₁
  · split
    · exact hs₁
    · refine Leads.bind (leads_quiet (all_emit _) hs₁) fun _ s₂ m₂ hs₂ => ?_
      refine Leads.bind (P := fun _ => Solvent cfg) ?_ fun outcome s₃ m₃ hs₃ => ?_
      · unfold callTool
        split
        · refine leads_caught (Watched.await fun s halone a r s' hact => ?_)
          obtain rfl : s₂ = s := halone
          obtain ⟨⟨revision, rfl⟩, _⟩ := executeStep_cases hact
          refine ⟨⟨trivial, fun hm => hs₂ hm.1⟩, ?_⟩
          have hsolvent : Solvent cfg { s₂ with revision } (m₂ ∧ True) := fun hm => hs₂ hm.1
          cases r with
          | ok result => exact hsolvent
          | error e =>
              show if e.isException then _ else _
              split <;> exact hsolvent
        · exact hs₂
      · refine Leads.bind (P := fun _ => Solvent cfg) ?_ fun message s₄ m₄ hs₄ => hs₄
        refine Leads.bind (leads_quiet (all_emit _) hs₃) fun _ s₄ m₄ hs₄ => ?_
        split
        · split
          · exact hs₄
          · exact hs₄
        · exact Leads.bind (leads_record fun hm => ⟨(hs₄ hm).1, (hs₄ hm).2⟩) fun _ s₅ m₅ hs₅ => hs₅

theorem leads_runCalls (calls : List Call) (ed : Editor) (h : Solvent cfg s m) :
    Leads Alone (spending cfg) (Raising cfg) (runCalls cfg calls ed) (fun _ => Solvent cfg) s m := by
  induction calls generalizing s m ed with
  | nil => exact h
  | cons call calls ih => exact Leads.bind (leads_runCall call ed h) fun ed' s₁ m₁ hs₁ => ih ed' hs₁

/-- **Step lemma**: one turn keeps the budget. -/
theorem leads_runTurn (turn : Nat) (ed : Editor) (h : Solvent cfg s m) :
    Leads Alone (spending cfg) (Raising cfg) (runTurn cfg turn ed) (fun _ => Solvent cfg) s m := by
  refine Leads.bind (leads_record fun hm => ⟨(h hm).1, (h hm).2⟩) fun _ s₁ m₁ hs₁ => ?_
  refine Leads.bind (leads_quiet (all_emit _) hs₁) fun _ s₂ m₂ hs₂ => ?_
  refine Leads.bind (leads_quiet (all_checkpoint false) hs₂) fun _ s₃ m₃ hs₃ => ?_
  refine Leads.bind (leads_askModel ed.messages hs₃) fun response s₄ m₄ hs₄ => ?_
  split
  · exact hs₄
  · split
    · -- a final reply
      refine Leads.bind (leads_quiet (all_emit _) hs₄) fun _ s₅ m₅ hs₅ => ?_
      refine Leads.bind (leads_quiet (all_check trivial) hs₅) fun checks s₆ m₆ hs₆ => ?_
      refine Leads.bind (leads_quiet (all_emit _) hs₆) fun _ s₇ m₇ hs₇ => ?_
      refine Leads.bind (leads_quiet (all_checkpoint false) hs₇) fun _ s₈ m₈ hs₈ => ?_
      split
      · exact hs₈
      · split
        · exact hs₈
        · exact Leads.bind (leads_record fun hm => ⟨(hs₈ hm).1, (hs₈ hm).2⟩) fun _ s₉ m₉ hs₉ => hs₉
    · refine Leads.bind (leads_quiet (all_read _) hs₄) fun before s₅ m₅ hs₅ => ?_
      refine Leads.bind (leads_runCalls response.toolCalls _ hs₅) fun ed' s₆ m₆ hs₆ => ?_
      refine Leads.bind (leads_quiet (all_read _) hs₆) fun after s₇ m₇ hs₇ => ?_
      exact Leads.bind (leads_quiet (all_checkpoint _) hs₇) fun _ s₈ m₈ hs₈ => hs₈

/-- **Run lemma**: any number of turns. -/
theorem leads_runTurns (turns : Nat) (ed : Editor) (h : Solvent cfg s m) :
    Leads Alone (spending cfg) (Raising cfg) (runTurns cfg turns ed) (fun _ => Solvent cfg) s m := by
  induction turns generalizing s m ed with
  | zero => exact h
  | succ turns ih =>
      refine Leads.bind (leads_runTurn (cfg.maxTurns - turns) ed h) fun next s₁ m₁ hs₁ => ?_
      obtain ⟨summary, ed'⟩ := next
      cases summary with
      | some text => exact hs₁
      | none => exact ih ed' hs₁

theorem leads_runEditor (h : Solvent cfg s m) :
    Leads Alone (spending cfg) (Raising cfg) (runEditor cfg) (fun _ => Solvent cfg) s m := by
  refine Leads.bind (leads_quiet all_checkSandbox h) fun _ s₁ m₁ hs₁ => ?_
  refine Leads.bind (leads_contextOf hs₁) fun context s₂ m₂ hs₂ => ?_
  refine Leads.bind (leads_quiet (all_observe trivial) hs₂) fun listing s₃ m₃ hs₃ => ?_
  refine Leads.bind (leads_quiet (all_readInitial _) hs₃) fun files s₄ m₄ hs₄ => ?_
  exact Leads.bind (leads_runTurns cfg.maxTurns _ hs₄) fun _ s₅ m₅ hs₅ => hs₅

end Tokens

/-! ## §4. Runs. -/

/-- All reports of a trace were right. -/
theorem spending_after {cfg : Settings} {steps : List EditStep} {m : Prop} (hm : m)
    (h : ∀ st ∈ steps, Reported cfg st) : (spending cfg).after m steps := by
  induction steps generalizing m with
  | nil => exact hm
  | cons st steps ih =>
      exact ih ⟨hm, h st List.mem_cons_self⟩ fun st' hst' => h st' (List.mem_cons_of_mem _ hst')

/-- **The token budget is kept** at every step of every conversation whose
requests used no more than they were admitted for. -/
theorem token_budget_kept (cfg : Settings) {s s' : Live} {steps : List EditStep} {q : Edit (String × String)}
    (hstart : s.metrics = Metrics.empty) (h : Performs Alone s (runEditor cfg) steps s' q)
    (hreports : ∀ st ∈ steps, Reported cfg st) :
    ∀ st ∈ steps, Kept cfg st.after.metrics ∧ Dispatched st := by
  have hsolvent : Solvent cfg s True := by
    intro _
    rw [hstart]
    refine ⟨?_, nofun⟩
    rcases lt_or_ge 0 cfg.tokenBudget with hpos | hneg
    · exact .inl hpos
    · exact .inr ⟨hneg, rfl⟩
  intro st hst
  obtain ⟨pre, post, rfl⟩ := List.append_of_mem hst
  have hbefore : (spending cfg).after True pre :=
    spending_after trivial fun st' hst' => hreports st' (List.mem_append_left _ hst')
  obtain ⟨hdispatched, hkept⟩ := Watched.permitted h (leads_runEditor hsolvent) pre st post rfl
  exact ⟨hkept ⟨hbefore, hreports st hst⟩, hdispatched⟩

/-- `RUN_MAX_TOKENS=0`: nothing is used, and that is not below the budget. -/
theorem token_budget_zero :
    ¬ ∀ (cfg : Settings) (s s' : Live) (steps : List EditStep) (q : Edit (String × String)),
        s.metrics = Metrics.empty → Performs Alone s (runEditor cfg) steps s' q → (∀ st ∈ steps, Reported cfg st) →
      ∀ st ∈ steps, st.after.metrics.totalTokens + st.after.metrics.reservedTokens < cfg.tokenBudget := by
  intro hall
  have hrun : ∃ q, Co.perform [.ok Reply.served] (runEditor (defaults 0)) Live.initial
      = some ([⟨.emit (.stage "Checking sandbox browser tools"), .ok .served, none, Live.initial,
          { Live.initial with events := 1, rows := 1 }⟩], { Live.initial with events := 1, rows := 1 }, q) := ⟨_, rfl⟩
  obtain ⟨q, hrun⟩ := hrun
  have hlt := hall (defaults 0) _ _ _ q rfl (Co.perform_performs (R := Alone) (fun _ => rfl) _ hrun)
    (fun st hst => by rw [List.mem_singleton.mp hst]; trivial) _ List.mem_cons_self
  exact absurd hlt (by decide)

/-- A summary and a reply of the model. -/
theorem token_budget_kept_reply :
    ∃ steps s' q, Performs Alone Live.initial (runEditor (defaults 200000)) steps s' q ∧
      (∃ st ∈ steps, ∃ rows, st.op = .summarize none rows) ∧ (∃ st ∈ steps, ∃ ms, st.op = .invoke ms 8192) ∧
      s'.metrics.totalTokens = 10500 ∧
      ∀ st ∈ steps, Kept (defaults 200000) st.after.metrics ∧ Dispatched st := by
  let summary : Response := ⟨.plain "summary", [], false, false, some ⟨7000, 500, 7500⟩, false⟩
  let reply : Response := ⟨.plain "done", [], false, false, some ⟨2500, 500, 3000⟩, false⟩
  let answers : List (Answer Exc Reply) := [.ok .served, .ok (.check true ""), .ok .served,
    .ok (.history ⟨6, [5000, 8000], none⟩), .ok .served, .ok (.response summary), .ok .served, .ok .served,
    .ok (.saved true), .ok .served, .ok (.text "context"), .ok (.paths [] []),
    .ok .served, .ok .served, .ok .served, .ok .served, .ok (.response reply), .ok .served]
  have hrun : ∃ steps s' q, Co.perform answers (runEditor (defaults 200000)) Live.initial = some (steps, s', q) ∧
      (∃ st ∈ steps, ∃ rows, st.op = .summarize none rows) ∧ (∃ st ∈ steps, ∃ ms, st.op = .invoke ms 8192) ∧
      s'.metrics.totalTokens = 10500 ∧ ∀ st ∈ steps, Reported (defaults 200000) st := by
    refine ⟨_, _, _, rfl, ⟨_, List.mem_of_getElem? (i := 5) rfl, _, rfl⟩, ⟨_, List.mem_of_getElem? (i := 16) rfl, _, rfl⟩,
      rfl, ?_⟩
    intro st hst
    simp only [List.mem_cons, List.not_mem_nil, or_false] at hst
    rcases hst with rfl | rfl | rfl | rfl | rfl | rfl | rfl | rfl | rfl | rfl | rfl | rfl | rfl | rfl | rfl | rfl | rfl | rfl
    case inr.inr.inr.inr.inr.inl =>
      intro usage husage
      obtain rfl := Option.some.inj husage
      decide
    case inr.inr.inr.inr.inr.inr.inr.inr.inr.inr.inr.inr.inr.inr.inr.inr.inl =>
      intro usage husage
      obtain rfl := Option.some.inj husage
      decide
    all_goals trivial
  obtain ⟨steps, s', q, hrun, hsummary, hinvoke, htotal, hreports⟩ := hrun
  have hperforms := Co.perform_performs (R := Alone) (fun _ => rfl) _ hrun
  exact ⟨steps, s', q, hperforms, hsummary, hinvoke, htotal, token_budget_kept (defaults 200000) rfl hperforms hreports⟩

end WebBuilder.Conversation
