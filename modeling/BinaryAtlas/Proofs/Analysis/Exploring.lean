import BinaryAtlas.Analysis.BasicBlocks
import BinaryAtlas.Proofs.Space.Filing
import Mathlib.Logic.Relation

/-!
Exploring a function step by step. Whatever order the addresses are taken up in, the exploration
decodes each instruction that control can come to once, and each address where control can come
from two sides is noted as a leader.
-/

set_option autoImplicit false

namespace BinaryAtlas

namespace Exploration

variable {space : Space} {architecture : Architecture} {start : Word}

theorem fetch?_eq_some_iff {a : Word} {i : Instruction} :
    fetch? space architecture a = some i ↔ space.isExecutableAt a = true ∧
      space.read a architecture.maxInstructionLength ≠ [] ∧ 0 < i.length ∧
      architecture.decode (space.read a architecture.maxInstructionLength) a = i := by
  unfold fetch?
  simp only [Instruction.isValid]
  grind

/-- The instruction at an address sends control to another one. -/
def Aims (i : Instruction) (target : Word) : Prop :=
  ∃ b ∈ i.branches, (b.kind = .unconditional ∨ b.kind = .conditional) ∧ b.target = some target

/-- Control can go from the instruction at `a` to `b`. -/
inductive Flows (a : Word) (i : Instruction) : Word → Prop where
  | falls (stays : i.endsFlow = false) : Flows a i (following a i)
  | branches {target : Word} (aims : Aims i target) : Flows a i target

/-- The instructions that control can come to: the least set that holds the one at the start and is
closed under control's ways, where only what can be fetched counts. -/
inductive Reaches (space : Space) (architecture : Architecture) (start : Word) : Word → Prop where
  | start {i : Instruction} (fetched : fetch? space architecture start = some i) :
      Reaches space architecture start start
  | onward {a b : Word} {i j : Instruction} (earlier : Reaches space architecture start a)
      (fetched : fetch? space architecture a = some i) (flows : Flows a i b)
      (next : fetch? space architecture b = some j) : Reaches space architecture start b

/-- Control would come to the address if an instruction could be fetched there. -/
inductive Wanted (space : Space) (architecture : Architecture) (start : Word) : Word → Prop where
  | start : Wanted space architecture start start
  | onward {a b : Word} {i : Instruction} (earlier : Reaches space architecture start a)
      (fetched : fetch? space architecture a = some i) (flows : Flows a i b) :
      Wanted space architecture start b

theorem Wanted.reaches {a : Word} (wanted : Wanted space architecture start a) {i : Instruction}
    (fetched : fetch? space architecture a = some i) : Reaches space architecture start a := by
  cases wanted with
  | start => exact .start fetched
  | onward earlier before flows => exact .onward earlier before flows fetched

theorem Reaches.fetched {a : Word} (reached : Reaches space architecture start a) :
    ∃ i, fetch? space architecture a = some i := by
  cases reached with
  | start fetched => exact ⟨_, fetched⟩
  | onward _ _ _ fetched => exact ⟨_, fetched⟩

/-- What is known after the instruction at an address was decoded. -/
def decode (e : Exploration) (space : Space) (a : Word) (i : Instruction) : Exploration :=
  let e := i.branches.foldl (addBranch a) (e.addOperands space a i)
  { e with decoded := e.decoded.insert a { i with tokens := [] } }

/-- Between two steps: where control stands, what is known, and the addresses whose instructions
were decoded, last one first. -/
structure Stage where
  current : Option Word
  known : Exploration
  visits : List Word

/-- One step of exploring, apart from giving up. -/
inductive Step (space : Space) (architecture : Architecture) : Stage → Stage → Prop where
  | take {e : Exploration} {visits rest : List Word} {a : Word} (first : e.pending = a :: rest) :
      Step space architecture ⟨none, e, visits⟩ ⟨some a, { e with pending := rest }, visits⟩
  | meet {e : Exploration} {visits : List Word} {a : Word} (old : e.decoded.contains a = true) :
      Step space architecture ⟨some a, e, visits⟩ ⟨none, e.addLeader a, visits⟩
  | fail {e : Exploration} {visits : List Word} {a : Word} (new : e.decoded.contains a = false)
      (barren : fetch? space architecture a = none) :
      Step space architecture ⟨some a, e, visits⟩ ⟨none, e, visits⟩
  | ends {e : Exploration} {visits : List Word} {a : Word} {i : Instruction}
      (new : e.decoded.contains a = false) (fetched : fetch? space architecture a = some i)
      (ends : i.endsBlock = true) :
      Step space architecture ⟨some a, e, visits⟩
        ⟨none, if i.endsFlow then e.decode space a i
          else (e.decode space a i).addTarget (following a i), a :: visits⟩
  | goesOn {e : Exploration} {visits : List Word} {a : Word} {i : Instruction}
      (new : e.decoded.contains a = false) (fetched : fetch? space architecture a = some i)
      (plain : i.endsBlock = false) :
      Step space architecture ⟨some a, e, visits⟩
        ⟨some (following a i), e.decode space a i, a :: visits⟩

def Runs (space : Space) (architecture : Architecture) : Stage → Stage → Prop :=
  Relation.ReflTransGen (Step space architecture)

/-- The same is decoded, and addresses of `targets` wait that did not before. -/
structure Widens (targets : Word → Prop) (before after : Exploration) : Prop where
  decoded : after.decoded = before.decoded
  leaders : ∀ b, after.leaders.contains b = true ↔ before.leaders.contains b = true ∨ targets b
  seen : ∀ b, after.seen.contains b = true ↔ before.seen.contains b = true ∨ targets b
  pending : ∀ b, b ∈ after.pending ↔
    b ∈ before.pending ∨ before.seen.contains b = false ∧ targets b
  counts : after.seen.size + before.pending.length = before.seen.size + after.pending.length

namespace Widens

variable {targets others : Word → Prop} {e e' e'' : Exploration}

theorem refl (e : Exploration) : Widens (fun _ => False) e e := by
  constructor <;> simp

theorem trans (first : Widens targets e e') (second : Widens others e' e'') :
    Widens (fun b => targets b ∨ others b) e e'' where
  decoded := second.decoded.trans first.decoded
  leaders b := by rw [second.leaders, first.leaders, or_assoc]
  seen b := by rw [second.seen, first.seen, or_assoc]
  pending b := by
    rw [second.pending, first.pending, ← Bool.not_eq_true, ← Bool.not_eq_true, first.seen]
    tauto
  counts := by have := first.counts; have := second.counts; omega

theorem congr (widens : Widens targets e e') (same : ∀ b, targets b ↔ others b) :
    Widens others e e' := by
  have : targets = others := funext fun b => propext (same b)
  exact this ▸ widens

/-- What is called and referred to makes no difference. -/
theorem noting {calls : List (Word × Word)} {references : List ReferenceKey}
    (widens : Widens targets { e with calls := calls, references := references } e') :
    Widens targets e e' :=
  ⟨widens.decoded, widens.leaders, widens.seen, widens.pending, widens.counts⟩

end Widens

theorem addTarget_seen {e : Exploration} {a : Word} (old : e.seen.contains a = true) :
    e.addTarget a = e.addLeader a :=
  if_pos old

theorem addTarget_new {e : Exploration} {a : Word} (new : e.seen.contains a = false) :
    e.addTarget a =
      { e.addLeader a with seen := e.seen.insert a (), pending := e.pending ++ [a] } :=
  if_neg (by simp [addLeader, new])

theorem widens_addTarget (e : Exploration) (a : Word) : Widens (· = a) e (e.addTarget a) := by
  cases known : e.seen.contains a with
  | true =>
    rw [addTarget_seen known]
    constructor <;> simp [addLeader, Table.contains_insert, or_comm]
    · exact known
    · grind
  | false =>
    rw [addTarget_new known]
    constructor <;> simp [addLeader, Table.contains_insert, or_comm, Table.size_insert known]
    · grind
    · omega

theorem addTarget_decoded (e : Exploration) (a : Word) (decoded : Table Word Instruction) :
    { e with decoded := decoded }.addTarget a = { e.addTarget a with decoded := decoded } := by
  cases known : e.seen.contains a <;> simp [addTarget, addLeader, known]

theorem widens_addBranch (a : Word) (e : Exploration) (b : Branch) :
    Widens (fun target => (b.kind = .unconditional ∨ b.kind = .conditional) ∧
      b.target = some target) e (addBranch a e b) := by
  obtain ⟨kind, target⟩ := b
  cases target with
  | none => exact (Widens.refl e).congr (by simp)
  | some target =>
    have direct : Widens (· = target) e ((e.addReference a target .code).addTarget target) :=
      (widens_addTarget (e.addReference a target .code) target).noting
    cases kind with
    | call =>
      have called := Widens.refl { e with
        calls := e.calls ++ [(a, target)], references := e.references ++ [⟨a, target, .code⟩] }
      exact called.noting.congr (by simp)
    | unconditional | conditional => exact direct.congr (by simp [eq_comm])
    | «return» | indirect | exception => exact (Widens.refl e).congr (by simp)

theorem widens_addBranches (a : Word) (bs : List Branch) (e : Exploration) :
    Widens (fun target => ∃ b ∈ bs, (b.kind = .unconditional ∨ b.kind = .conditional) ∧
      b.target = some target) e (bs.foldl (addBranch a) e) := by
  induction bs generalizing e with
  | nil => exact (Widens.refl e).congr (by simp)
  | cons b rest ih => exact ((widens_addBranch a e b).trans (ih _)).congr (by simp)

theorem widens_addOperands (e : Exploration) (space : Space) (a : Word) (i : Instruction) :
    Widens (fun _ => False) e (e.addOperands space a i) := by
  unfold addOperands
  generalize i.tokens = tokens
  induction tokens generalizing e with
  | nil => exact .refl e
  | cons t rest ih =>
    rw [List.foldl_cons]
    split
    · exact (ih (e.addReference a t.value .data)).noting
    · exact ih e

/-- Apart from its own instruction, decoding only brings the targets of that instruction. -/
theorem widens_decode (e : Exploration) (space : Space) (a : Word) (i : Instruction) :
    ∃ noted, Widens (Aims i) e noted ∧ e.decode space a i =
      { noted with decoded := e.decoded.insert a { i with tokens := [] } } := by
  have widens : Widens (Aims i) e (i.branches.foldl (addBranch a) (e.addOperands space a i)) :=
    ((widens_addOperands e space a i).trans (widens_addBranches a i.branches _)).congr
      (by simp [Aims])
  exact ⟨_, widens, by rw [← widens.decoded]; rfl⟩

/-- At the end of a block the next address is a target as well, unless the flow ends there. -/
theorem widens_end (e : Exploration) (space : Space) (a : Word) (i : Instruction) :
    ∃ noted, Widens (fun b => Aims i b ∨ i.endsFlow = false ∧ b = following a i) e noted ∧
      (if i.endsFlow then e.decode space a i
        else (e.decode space a i).addTarget (following a i)) =
      { noted with decoded := e.decoded.insert a { i with tokens := [] } } := by
  obtain ⟨noted, widens, same⟩ := widens_decode e space a i
  rw [same]
  cases leaves : i.endsFlow with
  | true => exact ⟨noted, widens.congr (by simp), rfl⟩
  | false =>
    exact ⟨noted.addTarget (following a i),
      (widens.trans (widens_addTarget _ _)).congr (by simp), addTarget_decoded ..⟩

namespace Stage

/-- What is left to do at most: each address is decoded once and taken up once. -/
def weight (stage : Stage) : Nat :=
  2 * (0x10000000000000000 - stage.known.seen.size) + 2 * stage.known.pending.length +
    (0x10000000000000000 - stage.known.decoded.size) + stage.current.toList.length

end Stage

theorem Widens.lighter {targets : Word → Prop} {e noted : Exploration} {a : Word}
    {i : Instruction} {visits : List Word} (widens : Widens targets e noted)
    (new : e.decoded.contains a = false) (current : Option Word) (later : List Word) :
    Stage.weight ⟨current, { noted with decoded := e.decoded.insert a i }, later⟩ <
      Stage.weight ⟨some a, e, visits⟩ := by
  have size := Table.size_insert new i
  have counts := widens.counts
  have := Table.size_le (e.decoded.insert a i)
  have := Table.size_le e.seen
  have := Table.size_le noted.seen
  have : current.toList.length ≤ 1 := by cases current <;> simp
  simp only [Stage.weight, Option.toList_some, List.length_singleton]
  omega

theorem Step.lighter {stage next : Stage} (step : Step space architecture stage next) :
    next.weight < stage.weight := by
  cases step with
  | take first => simp only [Stage.weight, first, List.length_cons, Option.toList]; grind
  | meet | fail => simp [Stage.weight, addLeader]
  | ends new =>
    obtain ⟨noted, widens, same⟩ := widens_end _ space _ _
    rw [same]
    exact widens.lighter new none _
  | goesOn new =>
    obtain ⟨noted, widens, same⟩ := widens_decode _ space _ _
    rw [same]
    exact widens.lighter new _ _

variable {limits : ExploreLimits}

variable (space architecture start limits) in
/-- Exploring is at its end, or it gives up, or it makes one step and goes on from there. -/
theorem explore_turn (stage : Stage) :
    (stage.current = none ∧ stage.known.pending = [] ∧ ∀ fuel,
      explore space architecture limits start fuel stage.current stage.known = stage.known) ∨
    (∀ fuel, explore space architecture limits start (fuel + 1) stage.current stage.known =
      { stage.known with skipped := true }) ∨
    ∃ next, Step space architecture stage next ∧ ∀ fuel,
      explore space architecture limits start (fuel + 1) stage.current stage.known =
        explore space architecture limits start fuel next.current next.known := by
  obtain ⟨current, e, visits⟩ := stage
  cases current with
  | none =>
    simp only [explore]
    split
    · refine .inl ⟨trivial, ‹_›, fun fuel => ?_⟩
      cases fuel with
      | zero => rfl
      | succ fuel => simp only [explore, ‹e.pending = []›]
    · exact .inr (.inr ⟨_, .take ‹_›, fun fuel => rfl⟩)
  | some a =>
    refine .inr ?_
    simp only [explore]
    split_ifs with old wide
    · exact .inr ⟨_, .meet old, fun fuel => rfl⟩
    · exact .inl fun fuel => rfl
    · simp only [Bool.not_eq_true] at old
      cases fetched : fetch? space architecture a with
      | none => exact .inr ⟨_, .fail old fetched, fun fuel => rfl⟩
      | some i =>
        cases ends : i.endsBlock with
        | true => exact .inr ⟨_, .ends old fetched ends, fun fuel => by simp [ends, decode]⟩
        | false => exact .inr ⟨_, .goesOn old fetched ends, fun fuel => by simp [ends, decode]⟩

theorem Stage.ended {stage : Stage} (nothing : stage.weight = 0) :
    stage.current = none ∧ stage.known.pending = [] := by
  obtain ⟨current, e, visits⟩ := stage
  simp only [Stage.weight] at nothing
  have none_pending : e.pending.length = 0 := by omega
  refine ⟨?_, List.length_eq_zero_iff.1 none_pending⟩
  cases current with
  | none => rfl
  | some a => simp at nothing

/-- With as many steps as the weight allows exploring comes to its end: further ones change
nothing. -/
theorem explore_more (fuel more : Nat) (stage : Stage) (enough : stage.weight ≤ fuel) :
    explore space architecture limits start (fuel + more) stage.current stage.known =
      explore space architecture limits start fuel stage.current stage.known := by
  induction fuel generalizing stage with
  | zero =>
    obtain ⟨current, pending⟩ := Stage.ended (Nat.le_zero.1 enough)
    rw [current]
    cases more with
    | zero => rfl
    | succ more => simp only [explore, pending]
  | succ fuel ih =>
    rw [Nat.add_right_comm]
    rcases explore_turn space architecture start limits stage with
      ⟨-, -, same⟩ | same | ⟨next, step, same⟩
    · rw [same, same]
    · rw [same, same]
    · have lighter := step.lighter
      rw [same, same, ih next (by omega)]

theorem ofStart_weight (start : Word) :
    Stage.weight ⟨none, ofStart start, []⟩ ≤ 0x30000000000000000 := by
  have one : (ofStart start).seen.size = 1 := rfl
  simp only [Stage.weight, one]
  simp only [ofStart, List.length_singleton, Option.toList_none, List.length_nil]
  omega

/-- Unless it gives up, exploring comes to its end. -/
theorem explore_runs (fuel : Nat) (stage : Stage) (enough : stage.weight ≤ fuel)
    (whole : (explore space architecture limits start fuel stage.current
      stage.known).skipped = false) :
    ∃ visits, Runs space architecture stage
        ⟨none, explore space architecture limits start fuel stage.current stage.known, visits⟩ ∧
      (explore space architecture limits start fuel stage.current stage.known).pending = [] := by
  induction fuel generalizing stage with
  | zero =>
    obtain ⟨current, pending⟩ := Stage.ended (Nat.le_zero.1 enough)
    obtain ⟨_, e, visits⟩ := stage
    cases current
    exact ⟨visits, .refl, pending⟩
  | succ fuel ih =>
    rcases explore_turn space architecture start limits stage with
      ⟨current, pending, same⟩ | same | ⟨next, step, same⟩
    · rw [same]
      obtain ⟨_, e, visits⟩ := stage
      cases current
      exact ⟨visits, .refl, pending⟩
    · rw [same] at whole
      cases whole
    · have lighter := step.lighter
      rw [same] at whole ⊢
      obtain ⟨visits, runs, pending⟩ := ih next (by omega) whole
      exact ⟨visits, .head step runs, pending⟩

/-- A block goes on from the instruction at `a` with the address behind it. -/
def Precedes (space : Space) (architecture : Architecture) (e : Exploration) (a next : Word) :
    Prop :=
  e.decoded.contains a = true ∧ ∃ i, fetch? space architecture a = some i ∧ i.endsBlock = false ∧
    following a i = next

/-- Nothing is left to be found at the address. -/
def Met (space : Space) (architecture : Architecture) (e : Exploration) (a : Word) : Prop :=
  e.decoded.contains a = true ∨ fetch? space architecture a = none

/-- What exploring keeps at every stage. -/
structure Kept (space : Space) (architecture : Architecture) (start : Word) (stage : Stage) :
    Prop where
  visits_nodup : stage.visits.Nodup
  visited : ∀ a, a ∈ stage.visits ↔ stage.known.decoded.contains a = true
  decoded : ∀ {a}, stage.known.decoded.contains a = true → ∃ i,
    fetch? space architecture a = some i ∧
    stage.known.decoded.get? a = some { i with tokens := [] }
  start_seen : stage.known.seen.contains start = true
  seen_wanted : ∀ {a}, stage.known.seen.contains a = true → Wanted space architecture start a
  current_wanted : ∀ {a}, stage.current = some a → Wanted space architecture start a
  decoded_wanted : ∀ {a}, stage.known.decoded.contains a = true → Wanted space architecture start a
  pending_seen : ∀ {a}, a ∈ stage.known.pending → stage.known.seen.contains a = true
  seen_leader : ∀ {a}, stage.known.seen.contains a = true → stage.known.leaders.contains a = true
  seen_met : ∀ {a}, stage.known.seen.contains a = true →
    a ∈ stage.known.pending ∨ stage.current = some a ∨ Met space architecture stage.known a
  aimed : ∀ {a b i}, stage.known.decoded.contains a = true →
    fetch? space architecture a = some i → Aims i b → stage.known.seen.contains b = true
  resumed : ∀ {a i}, stage.known.decoded.contains a = true →
    fetch? space architecture a = some i → i.endsBlock = true → i.endsFlow = false →
    stage.known.seen.contains (following a i) = true
  onward : ∀ {a next}, Precedes space architecture stage.known a next →
    Met space architecture stage.known next ∨
      stage.current = some next ∧ stage.visits.head? = some a
  merged : ∀ {a b next}, Precedes space architecture stage.known a next →
    Precedes space architecture stage.known b next →
    stage.known.decoded.contains next = true →
    a = b ∨ stage.known.leaders.contains next = true ∨ stage.current = some next
  origin : ∀ {next}, stage.known.decoded.contains next = true ∨ stage.current = some next →
    stage.known.leaders.contains next = true ∨
      ∃ a, Precedes space architecture stage.known a next

theorem ofStart_kept : Kept space architecture start ⟨none, ofStart start, []⟩ := by
  have nothing (a : Word) : (ofStart start).decoded.contains a = false := rfl
  have one (a : Word) : (ofStart start).seen.contains a = true ↔ a = start := by
    show (Table.empty.insert start ()).contains a = true ↔ a = start
    rw [Table.contains_insert]
    simp [Table.contains]
  constructor <;> simp [Precedes, nothing, one]
  · exact .start
  · simp [ofStart]
  · simp [ofStart, Table.contains_insert]
  · simp [ofStart]

theorem endsFlow_of_endsBlock {i : Instruction} (plain : i.endsBlock = false) :
    i.endsFlow = false := by
  simp only [Instruction.endsBlock, Instruction.endsFlow, List.any_eq_false] at plain ⊢
  intro b member
  have call := plain b member
  cases kind : b.kind <;> simp [kind] at call ⊢
  rfl

section Stages

variable {e noted : Exploration} {visits rest : List Word} {a : Word}

theorem Kept.take (kept : Kept space architecture start ⟨none, e, visits⟩)
    (first : e.pending = a :: rest) :
    Kept space architecture start ⟨some a, { e with pending := rest }, visits⟩ where
  visits_nodup := kept.visits_nodup
  visited := kept.visited
  decoded := kept.decoded
  start_seen := kept.start_seen
  seen_wanted := kept.seen_wanted
  current_wanted := by
    rintro b ⟨⟩
    exact kept.seen_wanted (kept.pending_seen (by simp [first]))
  decoded_wanted := kept.decoded_wanted
  pending_seen member := kept.pending_seen (by simp [first, member])
  seen_leader := kept.seen_leader
  seen_met {b} seen := by
    rcases kept.seen_met seen with pending | current | met
    · rw [first] at pending
      rcases List.mem_cons.1 pending with rfl | later
      · exact .inr (.inl rfl)
      · exact .inl later
    · cases current
    · exact .inr (.inr met)
  aimed := kept.aimed
  resumed := kept.resumed
  onward precedes := by
    rcases kept.onward precedes with met | ⟨current, -⟩
    · exact .inl met
    · cases current
  merged first second held := by
    rcases kept.merged first second held with same | leader | current
    · exact .inl same
    · exact .inr (.inl leader)
    · cases current
  origin := by
    rintro next (held | current)
    · exact kept.origin (.inl held)
    · cases current
      exact .inl (kept.seen_leader (kept.pending_seen (by simp [first])))

theorem Kept.meet (kept : Kept space architecture start ⟨some a, e, visits⟩)
    (old : e.decoded.contains a = true) :
    Kept space architecture start ⟨none, e.addLeader a, visits⟩ := by
  have leaders (b : Word) :
      (e.addLeader a).leaders.contains b = true ↔ b = a ∨ e.leaders.contains b = true := by
    simp [addLeader, Table.contains_insert]
  exact {
    kept with
    current_wanted := by rintro b ⟨⟩
    seen_leader := fun seen => (leaders _).2 (.inr (kept.seen_leader seen))
    seen_met := fun seen => by
      rcases kept.seen_met seen with pending | ⟨⟨⟩⟩ | met
      · exact .inl pending
      · exact .inr (.inr (.inl old))
      · exact .inr (.inr met)
    onward := fun precedes => by
      rcases kept.onward precedes with met | ⟨⟨⟩, -⟩
      · exact .inl met
      · exact .inl (.inl old)
    merged := fun first second held => by
      rcases kept.merged first second held with same | leader | ⟨⟨⟩⟩
      · exact .inl same
      · exact .inr (.inl ((leaders _).2 (.inr leader)))
      · exact .inr (.inl ((leaders _).2 (.inl rfl)))
    origin := by
      rintro next (held | ⟨⟨⟩⟩)
      exact (kept.origin (.inl held)).imp_left fun leader => (leaders _).2 (.inr leader) }

theorem Kept.fail (kept : Kept space architecture start ⟨some a, e, visits⟩)
    (barren : fetch? space architecture a = none) :
    Kept space architecture start ⟨none, e, visits⟩ :=
  { kept with
    current_wanted := by rintro b ⟨⟩
    seen_met := fun seen => by
      rcases kept.seen_met seen with pending | ⟨⟨⟩⟩ | met
      · exact .inl pending
      · exact .inr (.inr (.inr barren))
      · exact .inr (.inr met)
    onward := fun precedes => by
      rcases kept.onward precedes with met | ⟨⟨⟩, -⟩
      · exact .inl met
      · exact .inl (.inr barren)
    merged := fun first second held => by
      rcases kept.merged first second held with same | leader | ⟨⟨⟩⟩
      · exact .inl same
      · exact .inr (.inl leader)
      · obtain ⟨i, fetched, -⟩ := kept.decoded held
        rw [barren] at fetched
        cases fetched
    origin := by
      rintro next (held | ⟨⟨⟩⟩)
      exact kept.origin (.inl held) }

variable {targets : Word → Prop} {i : Instruction}

theorem precedes_insert {next b : Word} (fetched : fetch? space architecture a = some i) :
    Precedes space architecture
        { noted with decoded := e.decoded.insert a { i with tokens := [] } } b next ↔
      b = a ∧ i.endsBlock = false ∧ following a i = next ∨
        b ≠ a ∧ Precedes space architecture e b next := by
  simp only [Precedes, Table.contains_insert, Bool.or_eq_true, decide_eq_true_eq]
  by_cases here : b = a
  · subst here
    simp [fetched]
  · simp [here]

/-- Decoding an instruction whose targets are noted, whether the block ends with it or not. -/
theorem Kept.learn (kept : Kept space architecture start ⟨some a, e, visits⟩)
    (new : e.decoded.contains a = false) (fetched : fetch? space architecture a = some i)
    (widens : Widens targets e noted) (aims : ∀ b, Aims i b → targets b)
    (flows : ∀ b, targets b → Flows a i b)
    (resumes : i.endsBlock = true → i.endsFlow = false → targets (following a i)) :
    Kept space architecture start ⟨if i.endsBlock then none else some (following a i),
      { noted with decoded := e.decoded.insert a { i with tokens := [] } }, a :: visits⟩ := by
  have reached := (kept.current_wanted rfl).reaches fetched
  have contains (b : Word) : (e.decoded.insert a { i with tokens := [] }).contains b = true ↔
      b = a ∨ e.decoded.contains b = true := by
    simp [Table.contains_insert]
  have absent {b : Word} (held : e.decoded.contains b = true) : b ≠ a := by
    rintro rfl
    rw [new] at held
    cases held
  have met {b : Word} (old : Met space architecture e b) : Met space architecture
      { noted with decoded := e.decoded.insert a { i with tokens := [] } } b :=
    old.imp_left fun held => (contains b).2 (.inr held)
  have current {next : Word} : (if i.endsBlock then none else some (following a i)) = some next ↔
      i.endsBlock = false ∧ following a i = next := by
    cases i.endsBlock <;> simp
  constructor
  case visits_nodup =>
    refine List.nodup_cons.2 ⟨fun member => ?_, kept.visits_nodup⟩
    exact absent ((kept.visited a).1 member) rfl
  case visited =>
    intro b
    rw [List.mem_cons, contains]
    exact or_congr_right (kept.visited b)
  case decoded =>
    intro b held
    rcases (contains b).1 held with rfl | old
    · exact ⟨i, fetched, Table.get?_insert_self ..⟩
    · obtain ⟨j, there, held⟩ := kept.decoded old
      exact ⟨j, there, (Table.get?_insert_of_ne _ _ (absent old)).trans held⟩
  case start_seen => exact (widens.seen start).2 (.inl kept.start_seen)
  case seen_wanted =>
    intro b seen
    rcases (widens.seen b).1 seen with old | target
    · exact kept.seen_wanted old
    · exact .onward reached fetched (flows b target)
  case current_wanted =>
    intro b next
    obtain ⟨plain, rfl⟩ := current.1 next
    exact .onward reached fetched (.falls (endsFlow_of_endsBlock plain))
  case decoded_wanted =>
    intro b held
    rcases (contains b).1 held with rfl | old
    · exact kept.current_wanted rfl
    · exact kept.decoded_wanted old
  case pending_seen =>
    intro b pending
    rcases (widens.pending b).1 pending with old | ⟨-, target⟩
    · exact (widens.seen b).2 (.inl (kept.pending_seen old))
    · exact (widens.seen b).2 (.inr target)
  case seen_leader =>
    intro b seen
    exact (widens.leaders b).2 (((widens.seen b).1 seen).imp_left kept.seen_leader)
  case seen_met =>
    intro b seen
    cases old : e.seen.contains b with
    | true =>
      rcases kept.seen_met old with pending | ⟨⟨⟩⟩ | known
      · exact .inl ((widens.pending b).2 (.inl pending))
      · exact .inr (.inr (.inl ((contains a).2 (.inl rfl))))
      · exact .inr (.inr (met known))
    | false =>
      have target := ((widens.seen b).1 seen).resolve_left (by simp [old])
      exact .inl ((widens.pending b).2 (.inr ⟨old, target⟩))
  case aimed =>
    intro b target j held there aim
    rcases (contains b).1 held with rfl | old
    · rw [fetched] at there
      cases there
      exact (widens.seen target).2 (.inr (aims target aim))
    · exact (widens.seen target).2 (.inl (kept.aimed old there aim))
  case resumed =>
    intro b j held there ends stays
    rcases (contains b).1 held with rfl | old
    · rw [fetched] at there
      cases there
      exact (widens.seen _).2 (.inr (resumes ends stays))
    · exact (widens.seen _).2 (.inl (kept.resumed old there ends stays))
  case onward =>
    intro b next precedes
    rcases (precedes_insert fetched).1 precedes with ⟨rfl, plain, rfl⟩ | ⟨-, old⟩
    · exact .inr ⟨current.2 ⟨plain, rfl⟩, rfl⟩
    · rcases kept.onward old with known | ⟨⟨⟨⟩⟩, -⟩
      · exact .inl (met known)
      · exact .inl (.inl ((contains a).2 (.inl rfl)))
  case merged =>
    intro b c next first second held
    rcases (precedes_insert fetched).1 first with ⟨rfl, plain, rfl⟩ | ⟨-, one⟩
    · exact .inr (.inr (current.2 ⟨plain, rfl⟩))
    rcases (precedes_insert fetched).1 second with ⟨rfl, plain, rfl⟩ | ⟨-, other⟩
    · exact .inr (.inr (current.2 ⟨plain, rfl⟩))
    rcases (contains next).1 held with rfl | old
    · -- Only the instruction that was decoded last can precede one that was not decoded before.
      have last {x : Word} (precedes : Precedes space architecture e x next) :
          visits.head? = some x := by
        rcases kept.onward precedes with known | ⟨-, head⟩
        · rcases known with known | barren
          · exact absurd rfl (absent known)
          · rw [fetched] at barren
            cases barren
        · exact head
      exact .inl (Option.some.inj ((last one).symm.trans (last other)))
    · rcases kept.merged one other old with same | leader | ⟨⟨⟩⟩
      · exact .inl same
      · exact .inr (.inl ((widens.leaders next).2 (.inl leader)))
      · exact absurd rfl (absent old)
  case origin =>
    intro next placed
    have before (old : e.decoded.contains next = true ∨ some a = some next) :
        noted.leaders.contains next = true ∨ ∃ b, Precedes space architecture
          { noted with decoded := e.decoded.insert a { i with tokens := [] } } b next := by
      rcases kept.origin old with leader | ⟨b, precedes⟩
      · exact .inl ((widens.leaders next).2 (.inl leader))
      · exact .inr ⟨b, (precedes_insert fetched).2 (.inr ⟨absent precedes.1, precedes⟩)⟩
    rcases placed with held | here
    · rcases (contains next).1 held with rfl | old
      · exact before (.inr rfl)
      · exact before (.inl old)
    · obtain ⟨plain, rfl⟩ := current.1 here
      exact .inr ⟨a, (precedes_insert fetched).2 (.inl ⟨rfl, plain, rfl⟩)⟩

end Stages

theorem step_kept {stage next : Stage} (kept : Kept space architecture start stage)
    (step : Step space architecture stage next) : Kept space architecture start next := by
  cases step with
  | take first => exact kept.take first
  | meet old => exact kept.meet old
  | fail new barren => exact kept.fail barren
  | @ends e visits a i new fetched ends =>
    obtain ⟨noted, widens, same⟩ := widens_end e space a i
    have learned := kept.learn new fetched widens (fun b => .inl)
      (fun b target => target.elim .branches fun ⟨stays, here⟩ => here ▸ .falls stays)
      fun _ stays => .inr ⟨stays, rfl⟩
    rwa [ends, if_pos rfl, ← same] at learned
  | @goesOn e visits a i new fetched plain =>
    obtain ⟨noted, widens, same⟩ := widens_decode e space a i
    have learned := kept.learn new fetched widens (fun b => id) (fun b => .branches)
      fun ends => absurd (plain.symm.trans ends) (by simp)
    rwa [plain, if_neg (by simp), ← same] at learned

theorem runs_kept {stage last : Stage} (kept : Kept space architecture start stage)
    (runs : Runs space architecture stage last) : Kept space architecture start last := by
  induction runs with
  | refl => exact kept
  | tail _ step ih => exact step_kept ih step

/-- What is known when nothing is left to explore: exactly the instructions that control reaches
are decoded, and blocks can be cut at the leaders. -/
structure Charted (space : Space) (architecture : Architecture) (start : Word)
    (e : Exploration) : Prop where
  decoded_iff : ∀ a, e.decoded.contains a = true ↔ Reaches space architecture start a
  instructions : ∀ {a i}, Reaches space architecture start a →
    fetch? space architecture a = some i → e.decoded.get? a = some { i with tokens := [] }
  aimed : ∀ {a b i}, Reaches space architecture start a →
    fetch? space architecture a = some i → Aims i b → e.leaders.contains b = true
  resumed : ∀ {a i}, Reaches space architecture start a →
    fetch? space architecture a = some i → i.endsBlock = true → i.endsFlow = false →
    e.leaders.contains (following a i) = true
  merged : ∀ {a b next}, Precedes space architecture e a next →
    Precedes space architecture e b next → e.decoded.contains next = true →
    a = b ∨ e.leaders.contains next = true
  origin : ∀ {next}, e.decoded.contains next = true →
    e.leaders.contains next = true ∨ ∃ a, Precedes space architecture e a next

theorem Kept.charted {e : Exploration} {visits : List Word}
    (kept : Kept space architecture start ⟨none, e, visits⟩) (nothing : e.pending = []) :
    Charted space architecture start e := by
  have known {b : Word} {j : Instruction} (fetched : fetch? space architecture b = some j)
      (met : Met space architecture e b) : e.decoded.contains b = true := by
    rcases met with held | barren
    · exact held
    · rw [fetched] at barren
      cases barren
  have seen {b : Word} {j : Instruction} (fetched : fetch? space architecture b = some j)
      (seen : e.seen.contains b = true) : e.decoded.contains b = true := by
    rcases kept.seen_met seen with pending | current | met
    · simp [nothing] at pending
    · cases current
    · exact known fetched met
  have all {a : Word} (reached : Reaches space architecture start a) :
      e.decoded.contains a = true := by
    induction reached with
    | start fetched => exact seen fetched kept.start_seen
    | onward _ fetched flows next held =>
      cases flows with
      | branches aims => exact seen next (kept.aimed held fetched aims)
      | falls stays =>
        cases ends : Instruction.endsBlock _ with
        | true => exact seen next (kept.resumed held fetched ends stays)
        | false =>
          rcases kept.onward ⟨held, _, fetched, ends, rfl⟩ with met | ⟨current, -⟩
          · exact known next met
          · cases current
  have only {a : Word} (held : e.decoded.contains a = true) :
      Reaches space architecture start a := by
    obtain ⟨i, fetched, -⟩ := kept.decoded held
    exact (kept.decoded_wanted held).reaches fetched
  constructor
  case decoded_iff => exact fun a => ⟨only, all⟩
  case instructions =>
    intro a i reached fetched
    obtain ⟨j, there, held⟩ := kept.decoded (all reached)
    rw [fetched] at there
    cases there
    exact held
  case aimed =>
    exact fun reached fetched aims => kept.seen_leader (kept.aimed (all reached) fetched aims)
  case resumed =>
    exact fun reached fetched ends stays =>
      kept.seen_leader (kept.resumed (all reached) fetched ends stays)
  case merged =>
    intro a b next first second held
    rcases kept.merged first second held with same | leader | current
    · exact .inl same
    · exact .inr leader
    · cases current
  case origin => exact fun held => kept.origin (.inl held)

/-- Exploring that does not give up comes to its end, and has then decoded exactly what control
reaches, each instruction once. -/
theorem explored (fuel : Nat) (enough : 0x30000000000000000 ≤ fuel)
    (whole : (explore space architecture limits start fuel none (ofStart start)).skipped = false) :
    ∃ visits, Runs space architecture ⟨none, ofStart start, []⟩
        ⟨none, explore space architecture limits start fuel none (ofStart start), visits⟩ ∧
      (explore space architecture limits start fuel none (ofStart start)).pending = [] ∧
      visits.Nodup ∧ (∀ a, a ∈ visits ↔ Reaches space architecture start a) ∧
      Charted space architecture start
        (explore space architecture limits start fuel none (ofStart start)) := by
  obtain ⟨visits, runs, nothing⟩ := explore_runs fuel ⟨none, ofStart start, []⟩
    (Nat.le_trans (ofStart_weight start) enough) whole
  have kept := runs_kept ofStart_kept runs
  have charted := kept.charted nothing
  exact ⟨visits, runs, nothing, kept.visits_nodup,
    fun a => (kept.visited a).trans (charted.decoded_iff a), charted⟩

end Exploration

end BinaryAtlas
