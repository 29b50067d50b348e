/-
  WebBuilder.Frontend.Consolidation — the cards of the chat history.

  `consolidateMessages` of `lib/chat/messages.ts`.  Consecutive messages of the
  assistant become one card: the first one, with the contents and tool calls of
  the later ones.  The pass keeps an open card, which a user message, a message
  of another type or the end of the list closes; events without content are
  skipped and close nothing.

  A card is a copy of its first message, but it shares the array of tool calls
  with it, and the pass pushes onto that array.  So the code is a pass over
  messages with references to arrays, and `consolidate` says what it computes
  on values.  The history comes out of `JSON.parse`, where every message has
  arrays of its own.

  Main results:
    * `consolidate_eq` — the cards are the maximal runs, merged;
    * `consolidateMessages_reads` — the pass on arrays refines the one on
      values;
    * `consolidation` — nothing is lost, and a second pass changes nothing.
-/
import Mathlib.Data.List.SplitBy
import WebBuilder.Frontend.Transcript

namespace WebBuilder.Frontend.Consolidation

/-! ## §1. Messages. -/

/-- A message whose tool calls are a `τ`. -/
structure Message (τ : Type) where
  id : String
  role : Role
  content : String
  createdAt : String
  eventType : Option String
  toolCalls : Option τ
  activity : Option (List ActivityItem)
  runStatus : Option RunStatus
  finishedAt : Option String

/-- A message with its tool calls. -/
abbrev Card := Message (List ToolCall)

/-- The index of an array. -/
abbrev Ref := Nat

variable {τ υ : Type}

def Message.withCalls (m : Message τ) (calls : Option υ) : Message υ :=
  ⟨m.id, m.role, m.content, m.createdAt, m.eventType, calls, m.activity, m.runStatus, m.finishedAt⟩

def assistantEventTypes : List String :=
  ["thinking", "tool_started", "tool_completed", "planner_complete", "builder_complete", "validator_complete"]

def filterOutEvents : List String := ["started", "completed"]

/-- The spaces that `trim` removes. -/
def isSpace (c : Char) : Bool :=
  (9 ≤ c.toNat && c.toNat ≤ 13) || (0x2000 ≤ c.toNat && c.toNat ≤ 0x200a) ||
    c.toNat ∈ [0x20, 0xa0, 0x1680, 0x2028, 0x2029, 0x202f, 0x205f, 0x3000, 0xfeff]

/-- `msg.content && msg.content.trim()`. -/
def Message.hasContent (m : Message τ) : Bool := m.content.toList.any fun c => !isSpace c

/-- An event without content. -/
def Message.isWrapper (m : Message τ) : Bool :=
  m.role = .assistant && (truthy m.eventType).any fun type => type ∈ filterOutEvents

/-- A message that goes into a card. -/
def Message.isGrouped (m : Message τ) : Bool :=
  m.role = .assistant && !m.isWrapper && (truthy m.eventType).all fun type => type ∈ assistantEventTypes

/-- The copy that opens a card. -/
def Message.opened (m : Message τ) : Message τ := { m with eventType := some "thinking" }

/-- `content += '\n' + msg.content`, if there is some. -/
def addContent (content : String) (m : Message τ) : String :=
  if m.hasContent then content ++ "\n" ++ m.content else content

/-! ## §2. The pass. -/

/-- The variables of the pass, and the arrays of tool calls. -/
structure Pass where
  arrays : List (List ToolCall)
  consolidated : List (Message Ref)
  currentAssistantGroup : Option (Message Ref)

def Pass.array (p : Pass) (r : Ref) : List ToolCall := p.arrays.getD r []

/-- The open card is closed. -/
def Pass.close (p : Pass) : Pass :=
  ⟨p.arrays, p.consolidated ++ p.currentAssistantGroup.toList, none⟩

def Pass.push (p : Pass) (m : Message Ref) : Pass := { p with consolidated := p.consolidated ++ [m] }

/-- `group.tool_calls.push(...calls)`, with an array for it if there is none. -/
def Pass.pushCalls (p : Pass) (group : Message Ref) (calls : List ToolCall) : Pass :=
  match group.toolCalls with
  | some r => { p with arrays := p.arrays.set r (p.array r ++ calls), currentAssistantGroup := some group }
  | none =>
      { p with
        arrays := p.arrays ++ [calls]
        currentAssistantGroup := some { group with toolCalls := some p.arrays.length } }

/-- A message is added to the open card. -/
def Pass.append (p : Pass) (group m : Message Ref) : Pass :=
  let group := { group with content := addContent group.content m }
  match m.toolCalls with
  | some r =>
      if (p.array r).length > 0 then p.pushCalls group (p.array r)
      else { p with currentAssistantGroup := some group }
  | none => { p with currentAssistantGroup := some group }

/-- The body of the loop. -/
def Pass.step (p : Pass) (m : Message Ref) : Pass :=
  match m.role with
  | .user => p.close.push m
  | .assistant =>
      if m.isWrapper then p
      else if m.isGrouped then
        match p.currentAssistantGroup with
        | some group => p.append group m
        | none => { p with currentAssistantGroup := some m.opened }
      else p.close.push m

/-- `consolidateMessages(msgs)`: the arrays afterwards, and the result. -/
def consolidateMessages (arrays : List (List ToolCall)) (msgs : List (Message Ref)) :
    List (List ToolCall) × List (Message Ref) :=
  let p := (msgs.foldl Pass.step ⟨arrays, [], none⟩).close
  (p.arrays, p.consolidated)

/-! ## §3. The pass on values. -/

def Message.calls (m : Card) : List ToolCall := m.toolCalls.getD []

def addCalls (toolCalls : Option (List ToolCall)) (calls : List ToolCall) : Option (List ToolCall) :=
  if calls = [] then toolCalls else some (toolCalls.getD [] ++ calls)

def Message.extend (group m : Card) : Card :=
  { group with content := addContent group.content m, toolCalls := addCalls group.toolCalls m.calls }

def consolidateFrom : Option Card → List Card → List Card
  | group, [] => group.toList
  | group, m :: msgs =>
      if m.isWrapper then consolidateFrom group msgs
      else if m.isGrouped then
        match group with
        | some group => consolidateFrom (some (group.extend m)) msgs
        | none => consolidateFrom (some m.opened) msgs
      else group.toList ++ m :: consolidateFrom none msgs

def consolidate (msgs : List Card) : List Card := consolidateFrom none msgs

/-! ## §4. Maximal runs. -/

/-- The two messages belong to one card if they are neighbours. -/
def together (a b : Card) : Bool := a.isGrouped && b.isGrouped

/-- The messages in maximal runs of those that belong together, without the
events that have no content. -/
def runs (msgs : List Card) : List (List Card) := (msgs.filter fun m => !m.isWrapper).splitBy together

/-- The content of the first message, and every later one that is not blank. -/
def runContent (first : Card) (later : List Card) : String :=
  "\n".intercalate (first.content :: (later.filter Message.hasContent).map Message.content)

/-- The card of a run. -/
def merge (first : Card) (later : List Card) : Card :=
  { first with
    eventType := some "thinking"
    content := runContent first later
    toolCalls := addCalls first.toolCalls (later.flatMap Message.calls) }

/-- What becomes of a run: a card, or the message itself. -/
def card : List Card → List Card
  | [] => []
  | first :: later => if first.isGrouped then [merge first later] else [first]

theorem runContent_snoc (first : Card) (later : List Card) (m : Card) :
    runContent first (later ++ [m]) = addContent (runContent first later) m := by
  unfold runContent addContent
  rw [List.filter_append, List.map_append]
  by_cases hm : m.hasContent
  · rw [if_pos hm, List.filter_cons_of_pos hm, List.filter_nil, List.map_cons, List.map_nil, ← List.cons_append,
      String.intercalate_append_of_ne_nil (List.cons_ne_nil _ _) (List.cons_ne_nil _ _), String.intercalate_singleton]
  · rw [if_neg hm, List.filter_cons_of_neg hm, List.filter_nil, List.map_nil, List.append_nil]

theorem addCalls_append (toolCalls : Option (List ToolCall)) (calls more : List ToolCall) :
    addCalls toolCalls (calls ++ more) = addCalls (addCalls toolCalls calls) more := by
  unfold addCalls
  by_cases hcalls : calls = []
  · rw [hcalls, List.nil_append, if_pos rfl]
  · by_cases hmore : more = []
    · rw [hmore, List.append_nil, if_pos rfl]
    · rw [if_neg hcalls, if_neg hmore, if_neg (List.append_ne_nil_of_left_ne_nil hcalls _), Option.getD_some,
        List.append_assoc]

theorem merge_nil (first : Card) : merge first [] = first.opened := by
  unfold merge runContent
  rw [List.filter_nil, List.map_nil, String.intercalate_singleton, List.flatMap_nil]
  rfl

/-- **One more message** in a run. -/
theorem merge_snoc (first : Card) (later : List Card) (m : Card) :
    merge first (later ++ [m]) = (merge first later).extend m := by
  unfold merge
  rw [runContent_snoc, List.flatMap_append, List.flatMap_singleton, addCalls_append]
  rfl

theorem isChain_together {run : List Card} (h : ∀ m ∈ run, m.isGrouped = true) :
    run.IsChain fun a b => together a b = true := by
  refine List.Pairwise.isChain (List.pairwise_of_forall_mem_list fun a ha b hb => ?_)
  unfold together
  rw [h a ha, h b hb]
  rfl

/-- A message that is in no card is a run of its own. -/
theorem splitBy_alone {m : Card} (h : m.isGrouped = false) (before after : List Card) :
    (before ++ m :: after).splitBy together = before.splitBy together ++ [m] :: after.splitBy together := by
  have hbefore : ∀ x ∈ before.getLast?, together x m = false := fun x _ => by
    unfold together
    rw [h, Bool.and_false]
  have hafter : ∀ x ∈ [m].getLast?, ∀ y ∈ after.head?, together x y = false := fun x hx y _ => by
    rw [List.getLast?_singleton, Option.mem_some_iff] at hx
    unfold together
    rw [← hx, h, Bool.false_and]
  rw [List.splitBy_append_cons after hbefore]
  congr 1
  exact List.splitBy_append (l := [m]) hafter

theorem card_alone {m : Card} (h : m.isGrouped = false) : card [m] = [m] := if_neg (Bool.eq_false_iff.mp h)

theorem card_run {first : Card} {later : List Card} (h : ∀ m ∈ first :: later, m.isGrouped = true) :
    card (first :: later) = [merge first later] := if_pos (h first List.mem_cons_self)

/-- **The pass merges maximal runs**, with or without an open card. -/
theorem consolidateFrom_eq (msgs : List Card) :
    consolidateFrom none msgs = (runs msgs).flatMap card ∧
      ∀ (first : Card) (later : List Card), (∀ m ∈ first :: later, m.isGrouped = true) →
        consolidateFrom (some (merge first later)) msgs
          = ((first :: later ++ msgs.filter fun m => !m.isWrapper).splitBy together).flatMap card := by
  unfold runs
  induction msgs with
  | nil =>
      refine ⟨rfl, fun first later h => ?_⟩
      rw [List.filter_nil, List.append_nil, List.splitBy_of_isChain (List.cons_ne_nil _ _) (isChain_together h),
        List.flatMap_singleton, card_run h]
      rfl
  | cons m msgs ih =>
      obtain ⟨ihnone, ihrun⟩ := ih
      unfold consolidateFrom
      by_cases hwrapper : m.isWrapper = true
      · rw [if_pos hwrapper, List.filter_cons_of_neg (by rw [hwrapper]; decide)]
        refine ⟨ihnone, fun first later h => ?_⟩
        rw [if_pos hwrapper]
        exact ihrun first later h
      rw [if_neg hwrapper, List.filter_cons_of_pos (by rw [Bool.eq_false_iff.mpr hwrapper]; rfl)]
      by_cases hgrouped : m.isGrouped = true
      · rw [if_pos hgrouped]
        constructor
        · show consolidateFrom (some m.opened) msgs = _
          rw [← merge_nil]
          exact ihrun m [] fun x hx => by rw [List.mem_singleton.mp hx]; exact hgrouped
        · intro first later h
          rw [if_neg hwrapper, if_pos hgrouped]
          show consolidateFrom (some ((merge first later).extend m)) msgs = _
          rw [← merge_snoc, ihrun first (later ++ [m]) fun x hx => ?_]
          · rw [← List.cons_append, List.append_assoc]
            rfl
          · rw [← List.cons_append] at hx
            rcases List.mem_append.mp hx with hx | hx
            · exact h x hx
            · rw [List.mem_singleton.mp hx]
              exact hgrouped
      · -- the message closes the card
        have halone := Bool.eq_false_iff.mpr hgrouped
        rw [if_neg hgrouped]
        constructor
        · have hsplit := splitBy_alone halone [] (msgs.filter fun m => !m.isWrapper)
          rw [List.nil_append, List.splitBy_nil, List.nil_append] at hsplit
          rw [hsplit, List.flatMap_cons, card_alone halone, ihnone]
          rfl
        · intro first later h
          rw [if_neg hwrapper, if_neg hgrouped, splitBy_alone halone,
            List.splitBy_of_isChain (List.cons_ne_nil _ _) (isChain_together h), List.flatMap_append,
            List.flatMap_singleton, card_run h, List.flatMap_cons, card_alone halone, ihnone]
          rfl

theorem consolidate_eq (msgs : List Card) : consolidate msgs = (runs msgs).flatMap card := (consolidateFrom_eq msgs).1

/-! ## §5. What the cards keep. -/

/-- A card that the pass has opened. -/
structure Opened (group : Card) : Prop where
  grouped : group.isGrouped = true
  thinking : group.eventType = some "thinking"

theorem opened_opened {m : Card} (h : m.isGrouped = true) : Opened m.opened := by
  refine ⟨?_, rfl⟩
  unfold Message.isGrouped at h
  rw [Bool.and_eq_true, Bool.and_eq_true, decide_eq_true_eq] at h
  unfold Message.isGrouped Message.isWrapper Message.opened
  rw [h.1.1]
  simp [truthy, filterOutEvents, assistantEventTypes]

theorem Opened.extend {group : Card} (h : Opened group) (m : Card) : Opened (group.extend m) := ⟨h.grouped, h.thinking⟩

theorem Opened.opened_eq {group : Card} (h : Opened group) : group.opened = group := by
  unfold Message.opened
  rw [← h.thinking]

theorem isWrapper_of_grouped {m : Message τ} (h : m.isGrouped = true) : m.isWrapper = false := by
  unfold Message.isGrouped at h
  rw [Bool.and_eq_true, Bool.and_eq_true, Bool.not_eq_true'] at h
  exact h.1.2

theorem calls_extend (group m : Card) : (group.extend m).calls = group.calls ++ m.calls := by
  show (addCalls group.toolCalls m.calls).getD [] = _
  unfold addCalls
  split
  · rename_i hnil
    rw [hnil, List.append_nil]
    rfl
  · rfl

/-- **No tool call is lost**, and none comes twice. -/
theorem consolidateFrom_calls (group : Option Card) (msgs : List Card) :
    (consolidateFrom group msgs).flatMap Message.calls
      = group.toList.flatMap Message.calls ++ (msgs.filter fun m => !m.isWrapper).flatMap Message.calls := by
  fun_induction consolidateFrom group msgs with
  | case1 group => rw [List.filter_nil, List.flatMap_nil, List.append_nil]
  | case2 group m msgs hwrapper ih => rw [ih, List.filter_cons_of_neg (by rw [hwrapper]; decide)]
  | case3 m msgs hwrapper hgrouped group ih =>
      rw [ih, List.filter_cons_of_pos (by simpa using hwrapper)]
      simp [calls_extend]
  | case4 m msgs hwrapper hgrouped ih =>
      have hopened : m.opened.calls = m.calls := rfl
      rw [ih, List.filter_cons_of_pos (by simpa using hwrapper)]
      simp [hopened]
  | case5 group m msgs hwrapper hgrouped ih =>
      rw [List.filter_cons_of_pos (by simpa using hwrapper), List.flatMap_append, List.flatMap_cons, List.flatMap_cons, ih]
      rfl

/-- **Messages outside the cards stay** as they are, in order. -/
theorem consolidateFrom_alone (group : Option Card) (msgs : List Card) (h : ∀ g ∈ group, Opened g) :
    (consolidateFrom group msgs).filter (fun m => !m.isGrouped)
      = msgs.filter fun m => !m.isWrapper && !m.isGrouped := by
  fun_induction consolidateFrom group msgs with
  | case1 group =>
      cases group with
      | none => rfl
      | some g => simp [(h g rfl).grouped]
  | case2 group m msgs hwrapper ih =>
      rw [ih h, List.filter_cons_of_neg (by simp [hwrapper])]
  | case3 m msgs hwrapper hgrouped group ih =>
      rw [ih fun g hg => by obtain rfl := Option.some.inj hg; exact (h group rfl).extend m,
        List.filter_cons_of_neg (by simp [hgrouped])]
  | case4 m msgs hwrapper hgrouped ih =>
      rw [ih fun g hg => by obtain rfl := Option.some.inj hg; exact opened_opened hgrouped,
        List.filter_cons_of_neg (by simp [hgrouped])]
  | case5 group m msgs hwrapper hgrouped ih =>
      rw [List.filter_append, List.filter_cons_of_pos (by simpa using hgrouped),
        List.filter_cons_of_pos (by simpa using And.intro hwrapper hgrouped), ih fun g hg => by cases hg]
      cases group with
      | none => rfl
      | some g => simp [(h g rfl).grouped]

/-- What a result of the pass looks like: no events without content, all cards
normal, and no two of them adjacent. -/
structure Tidy (msgs : List Card) : Prop where
  shown : ∀ m ∈ msgs, m.isWrapper = false
  normal : ∀ m ∈ msgs, m.isGrouped = true → Opened m
  apart : msgs.IsChain fun a b => together a b = false

theorem tidy_card {group : Option Card} (h : ∀ g ∈ group, Opened g) : Tidy group.toList := by
  cases group with
  | none => exact ⟨(fun m hm => absurd hm List.not_mem_nil), (fun m hm => absurd hm List.not_mem_nil), .nil⟩
  | some g =>
      refine ⟨fun m hm => ?_, fun m hm _ => ?_, .singleton g⟩
      · rw [List.mem_singleton.mp hm]
        exact isWrapper_of_grouped (h g rfl).grouped
      · rw [List.mem_singleton.mp hm]
        exact h g rfl

theorem Tidy.close {group : Option Card} (hgroup : ∀ g ∈ group, Opened g) {m : Card} (hshown : m.isWrapper = false)
    (halone : m.isGrouped = false) {msgs : List Card} (h : Tidy msgs) : Tidy (group.toList ++ m :: msgs) := by
  have hcard := tidy_card hgroup
  refine ⟨fun x hx => ?_, fun x hx hgrouped => ?_, ?_⟩
  · rcases List.mem_append.mp hx with hx | hx
    · exact hcard.shown x hx
    · rcases List.mem_cons.mp hx with rfl | hx
      · exact hshown
      · exact h.shown x hx
  · rcases List.mem_append.mp hx with hx | hx
    · exact hcard.normal x hx hgrouped
    · rcases List.mem_cons.mp hx with rfl | hx
      · rw [halone] at hgrouped
        cases hgrouped
      · exact h.normal x hx hgrouped
  · rw [List.isChain_append, List.isChain_cons]
    refine ⟨hcard.apart, ⟨fun y _ => by unfold together; rw [halone, Bool.false_and], h.apart⟩, fun x _ y hy => ?_⟩
    obtain rfl : m = y := by simpa using hy
    unfold together
    rw [halone, Bool.and_false]

theorem consolidateFrom_tidy (group : Option Card) (msgs : List Card) (h : ∀ g ∈ group, Opened g) :
    Tidy (consolidateFrom group msgs) := by
  fun_induction consolidateFrom group msgs with
  | case1 group => exact tidy_card h
  | case2 group m msgs hwrapper ih => exact ih h
  | case3 m msgs hwrapper hgrouped group ih =>
      exact ih fun g hg => by obtain rfl := Option.some.inj hg; exact (h group rfl).extend m
  | case4 m msgs hwrapper hgrouped ih =>
      exact ih fun g hg => by obtain rfl := Option.some.inj hg; exact opened_opened hgrouped
  | case5 group m msgs hwrapper hgrouped ih =>
      exact (ih fun g hg => by cases hg).close h (Bool.eq_false_iff.mpr hwrapper) (Bool.eq_false_iff.mpr hgrouped)

/-- **A tidy list is left alone.** -/
theorem Tidy.consolidateFrom_eq {group : Option Card} {msgs : List Card} (h : Tidy (group.toList ++ msgs))
    (hgroup : ∀ g ∈ group, Opened g) : consolidateFrom group msgs = group.toList ++ msgs := by
  induction msgs generalizing group with
  | nil => exact (List.append_nil _).symm
  | cons m msgs ih =>
      have hm : m ∈ group.toList ++ m :: msgs := List.mem_append_right _ List.mem_cons_self
      have htail : Tidy ((none : Option Card).toList ++ m :: msgs) :=
        ⟨fun x hx => h.shown x (List.mem_append_right _ hx), fun x hx => h.normal x (List.mem_append_right _ hx),
          (List.isChain_append.mp h.apart).2.1⟩
      unfold consolidateFrom
      rw [if_neg (by rw [h.shown m hm]; decide)]
      by_cases hgrouped : m.isGrouped = true
      · rw [if_pos hgrouped]
        have hopened := h.normal m hm hgrouped
        cases group with
        | some g =>
            -- two cards would be adjacent
            have hapart := (List.isChain_append.mp h.apart).2.2 g rfl m rfl
            unfold together at hapart
            rw [(hgroup g rfl).grouped, hgrouped] at hapart
            cases hapart
        | none =>
            show consolidateFrom (some m.opened) msgs = m :: msgs
            rw [hopened.opened_eq]
            exact @ih (some m) htail fun g hg => by obtain rfl := Option.some.inj hg; exact hopened
      · rw [if_neg hgrouped]
        have hrest : Tidy ((none : Option Card).toList ++ msgs) :=
          ⟨fun x hx => htail.shown x (List.mem_cons_of_mem _ hx), fun x hx => htail.normal x (List.mem_cons_of_mem _ hx),
            List.IsChain.tail htail.apart⟩
        rw [ih hrest fun g hg => by cases hg]
        rfl

/-! ## §6. The pass on arrays computes the pass on values. -/

/-- The message with the tool calls that its array holds. -/
def read (arrays : List (List ToolCall)) (m : Message Ref) : Card :=
  m.withCalls (m.toolCalls.map fun r => arrays.getD r [])

def refs (msgs : List (Message Ref)) : List Ref := msgs.filterMap Message.toolCalls

/-- Every message has an array of its own. -/
structure Owned (arrays : List (List ToolCall)) (msgs : List (Message Ref)) : Prop where
  nodup : (refs msgs).Nodup
  bound : ∀ r ∈ refs msgs, r < arrays.length

/-- The messages that a pass holds. -/
def Pass.held (p : Pass) : List (Message Ref) := p.consolidated ++ p.currentAssistantGroup.toList

theorem refs_cons (m : Message Ref) (msgs : List (Message Ref)) : refs (m :: msgs) = m.toolCalls.toList ++ refs msgs := by
  unfold refs
  rw [List.filterMap_cons]
  cases m.toolCalls <;> rfl

theorem refs_append (msgs more : List (Message Ref)) : refs (msgs ++ more) = refs msgs ++ refs more :=
  List.filterMap_append

/-- **Arrays that did not change** are read as before. -/
theorem map_read_congr {arrays arrays' : List (List ToolCall)} {msgs : List (Message Ref)}
    (h : ∀ r ∈ refs msgs, arrays'.getD r [] = arrays.getD r []) : msgs.map (read arrays') = msgs.map (read arrays) := by
  refine List.map_congr_left fun m hm => ?_
  unfold read
  cases hcalls : m.toolCalls with
  | none => rfl
  | some r =>
      rw [Option.map_some, Option.map_some, h r (List.mem_filterMap.mpr ⟨m, hm, hcalls⟩)]

/-- What an addition to the open card does. -/
structure Appended (p : Pass) (group m : Message Ref) (msgs : List (Message Ref)) (p' : Pass) : Prop where
  consolidated : p'.consolidated = p.consolidated
  frame : ∀ r ∈ refs (p.consolidated ++ msgs), p'.arrays.getD r [] = p.arrays.getD r []
  card : ∃ group', p'.currentAssistantGroup = some group' ∧
    read p'.arrays group' = (read p.arrays group).extend (read p.arrays m) ∧
    Owned p'.arrays (p.consolidated ++ group' :: msgs)

theorem Pass.append_reads {p : Pass} {group m : Message Ref} {msgs : List (Message Ref)}
    (h : Owned p.arrays (p.consolidated ++ group :: m :: msgs)) : Appended p group m msgs (p.append group m) := by
  have hrefs : refs (p.consolidated ++ group :: m :: msgs)
      = refs p.consolidated ++ (group.toolCalls.toList ++ (m.toolCalls.toList ++ refs msgs)) := by
    rw [refs_append, refs_cons, refs_cons]
  have hnodup := h.nodup
  have hbound := h.bound
  rw [hrefs] at hnodup hbound
  -- the array of `m` is not needed any more
  have hsub : (refs p.consolidated ++ (group.toolCalls.toList ++ refs msgs)).Sublist
      (refs p.consolidated ++ (group.toolCalls.toList ++ (m.toolCalls.toList ++ refs msgs))) :=
    (List.Sublist.refl _).append ((List.Sublist.refl _).append (List.sublist_append_right _ _))
  have hgroup : ∀ {group' : Message Ref}, group'.toolCalls = group.toolCalls →
      Owned p.arrays (p.consolidated ++ group' :: msgs) := by
    intro group' hsame
    refine ⟨?_, fun r hr => ?_⟩
    · rw [refs_append, refs_cons, hsame]
      exact hnodup.sublist hsub
    · rw [refs_append, refs_cons, hsame] at hr
      exact hbound r (hsub.subset hr)
  have hskip : (read p.arrays m).calls = [] → Appended p group m msgs
      { p with currentAssistantGroup := some { group with content := addContent group.content m } } := by
    intro hnil
    refine ⟨rfl, fun _ _ => rfl, _, rfl, ?_, hgroup rfl⟩
    unfold Message.extend
    rw [hnil]
    rfl
  unfold Pass.append
  cases hm : m.toolCalls with
  | none => exact hskip (by unfold read; rw [hm]; rfl)
  | some r =>
      have hcalls : (read p.arrays m).calls = p.array r := by
        unfold read
        rw [hm]
        rfl
      by_cases hlen : (p.array r).length > 0
      swap
      · show Appended p group m msgs (if (p.array r).length > 0 then _ else _)
        rw [if_neg hlen]
        exact hskip (hcalls.trans (List.length_eq_zero_iff.mp (by omega)))
      show Appended p group m msgs (if (p.array r).length > 0 then _ else _)
      rw [if_pos hlen]
      have hne : p.array r ≠ [] := List.length_pos_iff.mp hlen
      have hextend : ∀ {arrays : List (List ToolCall)} {calls : Option Ref},
          calls.map (fun r => arrays.getD r []) = some ((read p.arrays group).calls ++ p.array r) →
          read arrays { group with content := addContent group.content m, toolCalls := calls }
            = (read p.arrays group).extend (read p.arrays m) := by
        intro arrays calls hgot
        unfold Message.extend addCalls
        rw [hcalls, if_neg hne]
        unfold read Message.withCalls
        rw [hgot]
        rfl
      unfold Pass.pushCalls
      cases hg : group.toolCalls with
      | some r' =>
          show Appended p group m msgs ⟨p.arrays.set r' (p.array r' ++ p.array r), p.consolidated,
            some { group with content := addContent group.content m, toolCalls := some r' }⟩
          rw [hg] at hnodup hbound
          have hr' : r' < p.arrays.length := hbound r' (by simp)
          have howned := @hgroup { group with content := addContent group.content m, toolCalls := some r' } hg.symm
          have hold : (read p.arrays group).calls = p.array r' := by
            unfold read
            rw [hg]
            rfl
          refine ⟨rfl, fun x hx => ?_, _, rfl, hextend ?_, howned.nodup, fun x hx => ?_⟩
          · -- no other message has the array of the card
            have hne : r' ≠ x := by
              rw [refs_append] at hx
              rintro rfl
              simp only [List.nodup_append, Option.toList_some, List.nodup_cons] at hnodup
              rcases List.mem_append.mp hx with hx | hx
              · exact hnodup.2.2 r' hx r' (by simp) rfl
              · exact hnodup.2.1.2.2 r' (by simp) r' (by simp [hx]) rfl
            simp only [List.getD_eq_getElem?_getD, List.getElem?_set_ne hne]
          · rw [hold, Option.map_some, List.getD_eq_getElem?_getD, List.getElem?_set_self hr']
            rfl
          · rw [List.length_set]
            exact howned.bound x hx
      | none =>
          show Appended p group m msgs ⟨p.arrays ++ [p.array r], p.consolidated,
            some { group with content := addContent group.content m, toolCalls := some p.arrays.length }⟩
          rw [hg] at hnodup hbound
          have hrest : ∀ x ∈ refs (p.consolidated ++ msgs), x < p.arrays.length := by
            intro x hx
            rw [refs_append] at hx
            refine hbound x ?_
            rcases List.mem_append.mp hx with hx | hx <;> simp [hx]
          have hold : (read p.arrays group).calls = [] := by
            unfold read
            rw [hg]
            rfl
          refine ⟨rfl, fun x hx => ?_, _, rfl, hextend ?_, ?_, fun x hx => ?_⟩
          · simp only [List.getD_eq_getElem?_getD, List.getElem?_append_left (hrest x hx)]
          · rw [hold, Option.map_some, List.getD_eq_getElem?_getD, List.getElem?_append_right (Nat.le_refl _),
              Nat.sub_self]
            rfl
          · -- the new array is nobody else's
            rw [refs_append, refs_cons]
            have hboth : (refs p.consolidated ++ refs msgs).Nodup := hnodup.sublist
              ((List.Sublist.refl _).append (List.sublist_append_right _ _))
            have hnew : p.arrays.length ∉ refs p.consolidated ++ refs msgs := by
              intro hmem
              rw [← refs_append] at hmem
              exact Nat.lt_irrefl _ (hrest _ hmem)
            exact (List.nodup_middle).mpr (List.nodup_cons.mpr ⟨hnew, hboth⟩)
          · rw [List.length_append, List.length_singleton]
            rw [refs_append, refs_cons] at hx
            rcases List.mem_append.mp hx with hx | hx
            · exact Nat.lt_succ_of_lt (hrest x (by rw [refs_append]; exact List.mem_append_left _ hx))
            · rcases List.mem_cons.mp hx with rfl | hx
              · exact Nat.lt_succ_self _
              · exact Nat.lt_succ_of_lt (hrest x (by rw [refs_append]; exact List.mem_append_right _ hx))

theorem Owned.mono {arrays : List (List ToolCall)} {msgs more : List (Message Ref)} (h : Owned arrays more)
    (hsub : (refs msgs).Sublist (refs more)) : Owned arrays msgs :=
  ⟨h.nodup.sublist hsub, fun r hr => h.bound r (hsub.subset hr)⟩

/-- What the rest of a pass computes, on values. -/
def Pass.computes (p : Pass) (msgs : List (Message Ref)) : List Card :=
  p.consolidated.map (read p.arrays) ++
    consolidateFrom (p.currentAssistantGroup.map (read p.arrays)) (msgs.map (read p.arrays))

/-- A message that closes the open card. -/
theorem Pass.close_reads {p : Pass} {m : Message Ref} {msgs : List (Message Ref)}
    (h : Owned p.arrays (p.held ++ m :: msgs)) (hshown : m.isWrapper = false) (halone : m.isGrouped = false) :
    Owned (p.close.push m).arrays ((p.close.push m).held ++ msgs) ∧
      p.computes (m :: msgs) = (p.close.push m).computes msgs := by
  constructor
  · have hsame : (p.close.push m).held ++ msgs = p.held ++ m :: msgs := by
      unfold Pass.held Pass.push Pass.close
      simp
    rw [hsame]
    exact h
  · unfold Pass.computes
    rw [List.map_cons]
    have hstep : ∀ group : Option Card, consolidateFrom group (read p.arrays m :: msgs.map (read p.arrays))
        = group.toList ++ read p.arrays m :: consolidateFrom none (msgs.map (read p.arrays)) := by
      intro group
      conv_lhs => unfold consolidateFrom
      rw [if_neg (show ¬ (read p.arrays m).isWrapper = true from Bool.eq_false_iff.mp hshown),
        if_neg (show ¬ (read p.arrays m).isGrouped = true from Bool.eq_false_iff.mp halone)]
    rw [hstep]
    unfold Pass.push Pass.close
    cases p.currentAssistantGroup <;> simp

/-! What a step is, by the kind of its message. -/

section Step

variable {p : Pass} {m : Message Ref}

theorem assistant_of_wrapper (h : m.isWrapper = true) : m.role = .assistant := by
  unfold Message.isWrapper at h
  rw [Bool.and_eq_true, decide_eq_true_eq] at h
  exact h.1

theorem assistant_of_grouped (h : m.isGrouped = true) : m.role = .assistant := by
  unfold Message.isGrouped at h
  rw [Bool.and_eq_true, Bool.and_eq_true, decide_eq_true_eq] at h
  exact h.1.1

theorem Pass.step_wrapper (h : m.isWrapper = true) : p.step m = p := by
  unfold Pass.step
  rw [assistant_of_wrapper h]
  exact if_pos h

theorem Pass.step_alone (hshown : m.isWrapper = false) (halone : m.isGrouped = false) : p.step m = p.close.push m := by
  unfold Pass.step
  cases m.role with
  | user => rfl
  | assistant => exact (if_neg (Bool.eq_false_iff.mp hshown)).trans (if_neg (Bool.eq_false_iff.mp halone))

theorem Pass.step_open (h : m.isGrouped = true) (hclosed : p.currentAssistantGroup = none) :
    p.step m = { p with currentAssistantGroup := some m.opened } := by
  have hshown : ¬ m.isWrapper = true := Bool.eq_false_iff.mp (isWrapper_of_grouped h)
  unfold Pass.step
  rw [assistant_of_grouped h, hclosed]
  exact (if_neg hshown).trans (if_pos h)

theorem Pass.step_append (h : m.isGrouped = true) {group : Message Ref} (hopen : p.currentAssistantGroup = some group) :
    p.step m = p.append group m := by
  have hshown : ¬ m.isWrapper = true := Bool.eq_false_iff.mp (isWrapper_of_grouped h)
  unfold Pass.step
  rw [assistant_of_grouped h, hopen]
  exact (if_neg hshown).trans (if_pos h)

end Step

/-- **One message**: the pass still owns its arrays, and it computes what the
pass on values does. -/
theorem Pass.step_reads {p : Pass} {m : Message Ref} {msgs : List (Message Ref)}
    (h : Owned p.arrays (p.held ++ m :: msgs)) :
    Owned (p.step m).arrays ((p.step m).held ++ msgs) ∧ p.computes (m :: msgs) = (p.step m).computes msgs := by
  by_cases hwrapper : m.isWrapper = true
  · rw [Pass.step_wrapper hwrapper]
    refine ⟨h.mono ?_, ?_⟩
    · rw [refs_append, refs_append, refs_cons]
      exact (List.Sublist.refl _).append (List.sublist_append_right _ _)
    · unfold Pass.computes
      rw [List.map_cons]
      conv_lhs => unfold consolidateFrom
      rw [if_pos (show (read p.arrays m).isWrapper = true from hwrapper)]
  have hshown := Bool.eq_false_iff.mpr hwrapper
  by_cases hgrouped : m.isGrouped = true
  swap
  · have halone := Bool.eq_false_iff.mpr hgrouped
    rw [Pass.step_alone hshown halone]
    exact close_reads h hshown halone
  have hskip : ∀ {group : Option Card} {rest : List Card}, consolidateFrom group (read p.arrays m :: rest)
      = consolidateFrom (some ((group.map fun g => g.extend (read p.arrays m)).getD (read p.arrays m).opened)) rest := by
    intro group rest
    conv_lhs => unfold consolidateFrom
    rw [if_neg (show ¬ (read p.arrays m).isWrapper = true from hwrapper),
      if_pos (show (read p.arrays m).isGrouped = true from hgrouped)]
    cases group <;> rfl
  cases hcurrent : p.currentAssistantGroup with
  | none =>
      rw [Pass.step_open hgrouped hcurrent]
      refine ⟨h.mono ?_, ?_⟩
      · unfold Pass.held
        rw [hcurrent]
        simp only [refs_append, refs_cons, Option.toList_none, Option.toList_some, List.append_nil, List.append_assoc]
        exact List.Sublist.refl _
      · unfold Pass.computes
        rw [List.map_cons, hskip, hcurrent]
        rfl
  | some group =>
      rw [Pass.step_append hgrouped hcurrent]
      unfold Pass.held at h
      rw [hcurrent, List.append_assoc] at h
      obtain ⟨hconsolidated, hframe, group', hgroup', hread, howned⟩ := Pass.append_reads h
      refine ⟨?_, ?_⟩
      · unfold Pass.held
        rw [hconsolidated, hgroup', List.append_assoc]
        exact howned
      · unfold Pass.computes
        rw [List.map_cons, hskip, hcurrent, hgroup', hconsolidated, Option.map_some, Option.map_some,
          Option.map_some, hread]
        rw [map_read_congr fun r hr => hframe r (by rw [refs_append]; exact List.mem_append_left _ hr),
          map_read_congr fun r hr => hframe r (by rw [refs_append]; exact List.mem_append_right _ hr)]
        rfl

/-- **The pass on arrays** gives the cards of the messages, and owns their
arrays. -/
theorem consolidateMessages_reads {arrays : List (List ToolCall)} {msgs : List (Message Ref)} (h : Owned arrays msgs) :
    Owned (consolidateMessages arrays msgs).1 (consolidateMessages arrays msgs).2 ∧
      (consolidateMessages arrays msgs).2.map (read (consolidateMessages arrays msgs).1)
        = consolidate (msgs.map (read arrays)) := by
  have hrun : ∀ (msgs : List (Message Ref)) (p : Pass), Owned p.arrays (p.held ++ msgs) →
      Owned (msgs.foldl Pass.step p).arrays (msgs.foldl Pass.step p).held ∧
        p.computes msgs = (msgs.foldl Pass.step p).computes [] := by
    intro msgs
    induction msgs with
    | nil =>
        intro p hp
        rw [List.append_nil] at hp
        exact ⟨hp, rfl⟩
    | cons m msgs ih =>
        intro p hp
        obtain ⟨hstep, hcomputes⟩ := Pass.step_reads hp
        obtain ⟨howned, hrest⟩ := ih (p.step m) hstep
        exact ⟨howned, hcomputes.trans hrest⟩
  obtain ⟨howned, hcomputes⟩ := hrun msgs ⟨arrays, [], none⟩ h
  refine ⟨?_, ?_⟩
  · exact howned
  · unfold consolidate
    refine Eq.trans ?_ hcomputes.symm
    unfold consolidateMessages Pass.computes Pass.close
    rw [List.map_append]
    cases (msgs.foldl Pass.step ⟨arrays, [], none⟩).currentAssistantGroup <;> rfl

/-! ## §7. The history. -/

/-- The messages out of `JSON.parse`, whose arrays are numbered from `n` on. -/
def parsed (n : Nat) : List Card → List (Message Ref)
  | [] => []
  | m :: msgs =>
      match m.toolCalls with
      | none => m.withCalls none :: parsed n msgs
      | some _ => m.withCalls (some n) :: parsed (n + 1) msgs

/-- Their arrays. -/
def parsedArrays (msgs : List Card) : List (List ToolCall) := msgs.filterMap Message.toolCalls

theorem refs_parsed (n : Nat) (msgs : List Card) : refs (parsed n msgs) = List.range' n (parsedArrays msgs).length := by
  induction msgs generalizing n with
  | nil => rfl
  | cons m msgs ih =>
      unfold parsed parsedArrays
      rw [List.filterMap_cons]
      cases hcalls : m.toolCalls with
      | none => exact ih n
      | some calls =>
          show n :: refs (parsed (n + 1) msgs) = _
          rw [ih (n + 1)]
          rfl

theorem read_parsed (before : List (List ToolCall)) (msgs : List Card) :
    (parsed before.length msgs).map (read (before ++ parsedArrays msgs)) = msgs := by
  induction msgs generalizing before with
  | nil => rfl
  | cons m msgs ih =>
      unfold parsed parsedArrays
      rw [List.filterMap_cons]
      cases hcalls : m.toolCalls with
      | none =>
          show m.withCalls none :: (parsed before.length msgs).map (read (before ++ parsedArrays msgs)) = _
          rw [ih before, ← hcalls]
          rfl
      | some calls =>
          have hrest := ih (before ++ [calls])
          rw [List.length_append, List.length_singleton, List.append_assoc] at hrest
          show m.withCalls (some ((before ++ calls :: parsedArrays msgs).getD before.length [])) ::
            (parsed (before.length + 1) msgs).map (read (before ++ calls :: parsedArrays msgs)) = _
          rw [show before ++ calls :: parsedArrays msgs = before ++ ([calls] ++ parsedArrays msgs) from rfl, hrest]
          rw [List.getD_eq_getElem?_getD, List.getElem?_append_right (Nat.le_refl _), Nat.sub_self]
          show m.withCalls (some calls) :: msgs = _
          rw [← hcalls]
          rfl

theorem owned_parsed (msgs : List Card) : Owned (parsedArrays msgs) (parsed 0 msgs) := by
  constructor
  · rw [refs_parsed]
    exact List.nodup_range'
  · intro r hr
    rw [refs_parsed, List.mem_range'_1] at hr
    exact Nat.lt_of_lt_of_eq hr.2 (Nat.zero_add _)

/-- What the code makes of a history: the arrays and the messages. -/
def consolidated (msgs : List Card) : List (List ToolCall) × List (Message Ref) :=
  consolidateMessages (parsedArrays msgs) (parsed 0 msgs)

/-- The result of the code, as values. -/
def result (out : List (List ToolCall) × List (Message Ref)) : List Card := out.2.map (read out.1)

/-- **Consolidating a history loses nothing and is idempotent.**  The result is
the maximal runs of messages that belong together, merged; messages outside the
cards stay as they are, tool calls stay in order, no two cards are adjacent,
and a second pass over the result gives it again. -/
theorem consolidation (msgs : List Card) :
    result (consolidated msgs) = (runs msgs).flatMap card ∧
      (result (consolidated msgs)).filter (fun m => !m.isGrouped)
        = msgs.filter (fun m => !m.isWrapper && !m.isGrouped) ∧
      (result (consolidated msgs)).flatMap Message.calls
        = (msgs.filter fun m => !m.isWrapper).flatMap Message.calls ∧
      (result (consolidated msgs)).IsChain (fun a b => together a b = false) ∧
      result (consolidateMessages (consolidated msgs).1 (consolidated msgs).2) = result (consolidated msgs) := by
  obtain ⟨howned, hreads⟩ := consolidateMessages_reads (owned_parsed msgs)
  have hvalues : (parsed 0 msgs).map (read (parsedArrays msgs)) = msgs := read_parsed [] msgs
  rw [hvalues] at hreads
  have hresult : result (consolidated msgs) = consolidate msgs := hreads
  have hnone : ∀ g ∈ (none : Option Card), Opened g := fun g hg => by cases hg
  have htidy : Tidy (consolidate msgs) := consolidateFrom_tidy none msgs hnone
  have hagain : result (consolidateMessages (consolidated msgs).1 (consolidated msgs).2)
      = consolidate (result (consolidated msgs)) := (consolidateMessages_reads howned).2
  rw [hagain, hresult]
  refine ⟨consolidate_eq msgs, consolidateFrom_alone none msgs hnone, consolidateFrom_calls none msgs, htidy.apart, ?_⟩
  exact @Tidy.consolidateFrom_eq none _ htidy hnone

end WebBuilder.Frontend.Consolidation
