import BinaryAtlas.Decoder.Toy
import BinaryAtlas.Proofs.Analysis.Exploring
import BinaryAtlas.Proofs.Listing.Validity
import BinaryAtlas.Proofs.Snapshot.Restoring

/-!
The basic blocks of a function. Cut at the leaders, the instructions that control reaches fall into
blocks so that each is in one of them, and control enters a block at its start only.
-/

set_option autoImplicit false

namespace BinaryAtlas

namespace SegmentMap

variable {m : SegmentMap}

theorem Filed.le_span? (filed : m.Filed) {a stop : Word} {s : Segment}
    (found : m.span? a = some (s, stop)) : a ≤ stop := by
  unfold span? at found
  split at found
  · rename_i here
    cases found
    exact UInt64.le_of_lt (SegmentLayer.mem_of_at? here).2.2
  · split at found
    · rename_i here
      split at found
      · rename_i start next
        cases found
        have := le_layer_nextStart? (fun held => (filed.segments held).1)
          (show (m.layer false).nextStart? a = some start from next)
        have := (SegmentLayer.mem_of_at? here).2.2
        rw [Word.min_eq]
        split <;> grind
      · cases found
        exact UInt64.le_of_lt (SegmentLayer.mem_of_at? here).2.2
    · cases found

/-- Reading does not go past the largest address. -/
theorem Filed.read_room (filed : m.Filed) (storage : Storage) (a : Word) (length : Nat) :
    a.toNat + (m.read storage a length).length < 0x10000000000000000 := by
  induction length using Nat.strongRecOn generalizing a with
  | ind length ih =>
    have bound := a.toNat_lt
    rw [read]
    cases found : m.span? a with
    | none => simpa using bound
    | some span =>
      obtain ⟨s, stop⟩ := span
      have ahead := filed.le_span? found
      have room := UInt64.toNat_sub_of_le _ _ ahead
      rw [UInt64.le_iff_toNat_le] at ahead
      have := stop.toNat_lt
      simp only
      generalize want_eq : min length (stop - a).toNat = want
      have next : (a + .ofNat want).toNat = a.toNat + want := Word.toNat_add_ofNat (by omega)
      split_ifs with nothing stored short
      · simpa using bound
      · have := Storage.length_read_le storage (s.dataOffset + (a - s.start))
          (min want (s.start + s.dataLength - a).toNat)
        omega
      · have := Storage.length_read_le storage (s.dataOffset + (a - s.start))
          (min want (s.start + s.dataLength - a).toNat)
        have := ih (length - want) (by omega) (a + .ofNat want)
        simp only [List.length_append, List.length_replicate]
        omega
      · have := ih (length - want) (by omega) (a + .ofNat want)
        simp only [List.length_append, List.length_replicate]
        omega

end SegmentMap

namespace Exploration

variable {space : Space} {architecture : Architecture} {start : Word}

theorem following_eq (filed : space.map.Filed)
    (decodes : ∀ bytes a, (architecture.decode bytes a).length ≤ bytes.length) {a : Word}
    {i : Instruction} (fetched : fetch? space architecture a = some i) :
    (following a i).toNat = a.toNat + i.length ∧ 0 < i.length := by
  obtain ⟨executable, -, valid, rfl⟩ := fetch?_eq_some_iff.1 fetched
  refine ⟨?_, valid⟩
  have short := decodes (space.read a architecture.maxInstructionLength) a
  have room : a.toNat + (space.read a architecture.maxInstructionLength).length <
      0x10000000000000000 := by
    unfold Space.isExecutableAt at executable
    unfold Space.read
    cases kind : space.backend with
    | raw => simp [kind, Backend.isExecutableAt] at executable
    | mapped label => exact filed.read_room space.storage a architecture.maxInstructionLength
  rw [following, Word.toNat_addCapped, Word.toNat_ofNatCapped]
  omega

/-- Instructions end to end, from one address up to another. -/
inductive Laid (space : Space) (architecture : Architecture) : Word → List Word → Word → Prop where
  | nil (a : Word) : Laid space architecture a [] a
  | cons {a next stop : Word} {i : Instruction} {rest : List Word}
      (fetched : fetch? space architecture a = some i) (ends : next.toNat = a.toNat + i.length)
      (later : Laid space architecture next rest stop) :
      Laid space architecture a (a :: rest) stop

variable {a b stop : Word} {chain chain' : List Word}

theorem Laid.ordered (laid : Laid space architecture a chain stop) : a ≤ stop := by
  induction laid with
  | nil a => exact UInt64.le_refl a
  | cons _ ends _ later =>
    rw [UInt64.le_iff_toNat_le] at later ⊢
    omega

theorem Laid.ordered_of_ne_nil (laid : Laid space architecture a chain stop)
    (nonempty : chain ≠ []) : a < stop := by
  cases laid with
  | nil => exact absurd rfl nonempty
  | cons fetched ends later =>
    have := UInt64.le_iff_toNat_le.1 later.ordered
    have := (fetch?_eq_some_iff.1 fetched).2.2.1
    rw [UInt64.lt_iff_toNat_lt]
    omega

/-- There is one way to lay instructions between two addresses. -/
theorem Laid.unique (laid : Laid space architecture a chain stop)
    (laid' : Laid space architecture a chain' stop) : chain = chain' := by
  induction laid generalizing chain' with
  | nil a =>
    by_contra other
    exact UInt64.lt_irrefl _ (laid'.ordered_of_ne_nil fun same => other same.symm)
  | cons fetched ends later ih =>
    cases laid' with
    | nil =>
      exact absurd (Laid.cons fetched ends later |>.ordered_of_ne_nil (List.cons_ne_nil _ _))
        (UInt64.lt_irrefl _)
    | cons fetched' ends' later' =>
      rw [fetched] at fetched'
      cases fetched'
      obtain rfl := UInt64.toNat_inj.1 (ends.trans ends'.symm)
      rw [ih later']

/-- Each address in between is that of a byte of one of the instructions. -/
theorem Laid.covers (laid : Laid space architecture a chain stop) {x : Word} :
    a ≤ x ∧ x < stop ↔ ∃ y ∈ chain, ∃ i, fetch? space architecture y = some i ∧ y ≤ x ∧
      x.toNat < y.toNat + i.length := by
  induction laid with
  | nil a => simp [UInt64.not_lt]
  | @cons a next stop i rest fetched ends later ih =>
    have ahead := later.ordered
    simp only [UInt64.le_iff_toNat_le, UInt64.lt_iff_toNat_lt] at ahead ih ⊢
    constructor
    · rintro ⟨from_start, before⟩
      by_cases first : x.toNat < a.toNat + i.length
      · exact ⟨a, List.mem_cons_self, i, fetched, from_start, first⟩
      · obtain ⟨y, member, covered⟩ := ih.1 ⟨by omega, before⟩
        exact ⟨y, List.mem_cons_of_mem a member, covered⟩
    · rintro ⟨y, member, j, there, from_start, before⟩
      rcases List.mem_cons.1 member with rfl | member
      · rw [fetched] at there
        cases there
        omega
      · have := ih.2 ⟨y, member, j, there, from_start, before⟩
        omega

/-- From `a` on the instructions are laid up to where a block is cut, which leaves by the edges. -/
inductive Cut (decoded : Table Word Instruction) (leaders : Table Word Unit) :
    Word → List Word → Word → List BlockEdge → Prop where
  | ends {a : Word} {i : Instruction} (held : decoded.get? a = some i)
      (ends : i.endsBlock = true) :
      Cut decoded leaders a [a] (following a i) (Discovery.edgesOf i (following a i))
  | meets {a : Word} {i : Instruction} (held : decoded.get? a = some i)
      (plain : i.endsBlock = false) (leader : leaders.contains (following a i) = true)
      (known : decoded.contains (following a i) = true) :
      Cut decoded leaders a [a] (following a i) [⟨.fallthrough, some (following a i)⟩]
  | fails {a : Word} {i : Instruction} (held : decoded.get? a = some i)
      (plain : i.endsBlock = false) (unknown : decoded.contains (following a i) = false) :
      Cut decoded leaders a [a] (following a i) []
  | goesOn {a stop : Word} {i : Instruction} {chain : List Word} {edges : List BlockEdge}
      (held : decoded.get? a = some i) (plain : i.endsBlock = false)
      (inner : leaders.contains (following a i) = false)
      (rest : Cut decoded leaders (following a i) chain stop edges) :
      Cut decoded leaders a (a :: chain) stop edges

/-- The decoded instructions from an address on are enough steps to find the end of its block. -/
theorem blockEnd_cut {decoded : Table Word Instruction} (leaders : Table Word Unit)
    (grows : ∀ a i, decoded.get? a = some i → a < following a i) (fuel : Nat) (a : Word)
    (known : decoded.contains a = true)
    (enough : (decoded.keys.filter fun key => decide (a ≤ key)).length ≤ fuel) :
    ∃ chain, Cut decoded leaders a chain (Discovery.blockEnd decoded leaders fuel a).1
      (Discovery.blockEnd decoded leaders fuel a).2 := by
  induction fuel generalizing a with
  | zero =>
    obtain ⟨i, held⟩ := (Table.contains_iff decoded a).1 known
    have member : a ∈ decoded.keys.filter fun key => decide (a ≤ key) :=
      List.mem_filter.2 ⟨(Table.mem_keys_iff decoded a).2 ⟨i, held⟩, by simp⟩
    have := List.length_pos_of_mem member
    omega
  | succ fuel ih =>
    obtain ⟨i, held⟩ := (Table.contains_iff decoded a).1 known
    simp only [Discovery.blockEnd, held]
    cases ends : i.endsBlock with
    | true => exact ⟨[a], .ends held ends⟩
    | false =>
      cases next : decoded.contains (following a i) with
      | false =>
        simp only [Bool.and_false, Bool.false_eq_true, if_false]
        cases fuel with
        | zero => exact ⟨[a], .fails held ends next⟩
        | succ fuel =>
          have nothing : decoded.get? (following a i) = none := by
            simpa [Table.contains] using next
          simp only [Discovery.blockEnd, nothing]
          exact ⟨[a], .fails held ends next⟩
      | true =>
        cases leader : leaders.contains (following a i) with
        | true => exact ⟨[a], .meets held ends leader next⟩
        | false =>
          have after := grows a i held
          have fewer : (decoded.keys.filter fun key => decide (following a i ≤ key)).length <
              (decoded.keys.filter fun key => decide (a ≤ key)).length := by
            have part : (decoded.keys.filter fun key => decide (following a i ≤ key)) =
                (decoded.keys.filter fun key => decide (a ≤ key)).filter
                  fun key => decide (following a i ≤ key) := by
              rw [List.filter_filter]
              exact List.filter_congr fun key _ => by grind
            rw [part, List.length_filter_lt_length_iff_exists]
            refine ⟨a, List.mem_filter.2 ⟨(Table.mem_keys_iff decoded a).2 ⟨i, held⟩, by simp⟩, ?_⟩
            simpa using after
          obtain ⟨chain, cut⟩ := ih (following a i) next (by omega)
          exact ⟨a :: chain, .goesOn held ends leader cut⟩

section Blocks

variable {e : Exploration} {edges : List BlockEdge}

theorem Charted.fetched (charted : Charted space architecture start e) {a : Word}
    {i : Instruction} (held : e.decoded.get? a = some i) : ∃ j, Reaches space architecture start a ∧
      fetch? space architecture a = some j ∧ i = { j with tokens := [] } := by
  have reached := (charted.decoded_iff a).1 ((Table.contains_iff e.decoded a).2 ⟨i, held⟩)
  obtain ⟨j, fetched⟩ := reached.fetched
  have same := charted.instructions reached fetched
  rw [held] at same
  exact ⟨j, reached, fetched, Option.some.inj same⟩

theorem Charted.stored (charted : Charted space architecture start e) {a : Word}
    {i j : Instruction} (held : e.decoded.get? a = some i)
    (fetched : fetch? space architecture a = some j) : i = { j with tokens := [] } := by
  obtain ⟨j', -, fetched', same⟩ := charted.fetched held
  rw [fetched] at fetched'
  cases fetched'
  exact same

theorem Cut.laid (charted : Charted space architecture start e)
    (advances : ∀ {a i}, fetch? space architecture a = some i →
      (following a i).toNat = a.toNat + i.length)
    (cut : Cut e.decoded e.leaders a chain stop edges) :
    Laid space architecture a chain stop ∧ ∀ x ∈ chain, Reaches space architecture start x := by
  induction cut with
  | ends held | meets held | fails held =>
    obtain ⟨j, reached, fetched, rfl⟩ := charted.fetched held
    exact ⟨.cons fetched (advances fetched) (.nil _), by simpa using reached⟩
  | goesOn held _ _ _ ih =>
    obtain ⟨j, reached, fetched, rfl⟩ := charted.fetched held
    exact ⟨.cons fetched (advances fetched) ih.1, List.forall_mem_cons.2 ⟨reached, ih.2⟩⟩

theorem Cut.start_mem (cut : Cut e.decoded e.leaders a chain stop edges) : a ∈ chain := by
  cases cut <;> simp

theorem precedes_iff (charted : Charted space architecture start e) {i : Instruction}
    (held : e.decoded.get? a = some i) {next : Word} :
    Precedes space architecture e a next ↔ i.endsBlock = false ∧ following a i = next := by
  obtain ⟨j, reached, fetched, rfl⟩ := charted.fetched held
  simp only [Precedes, charted.decoded_iff, reached, fetched, true_and, Option.some.injEq,
    exists_eq_left']
  exact Iff.rfl

/-- Behind its start a block holds no leader, but the instruction that precedes each. -/
theorem Cut.before (charted : Charted space architecture start e)
    (cut : Cut e.decoded e.leaders a chain stop edges) {x : Word} (member : x ∈ chain) :
    x = a ∨ e.leaders.contains x = false ∧ ∃ y ∈ chain, Precedes space architecture e y x := by
  induction cut with
  | ends | meets | fails => exact .inl (List.mem_singleton.1 member)
  | @goesOn a stop i chain edges held plain inner rest ih =>
    rcases List.mem_cons.1 member with rfl | member
    · exact .inl rfl
    · right
      rcases ih member with rfl | ⟨leader, y, earlier, precedes⟩
      · exact ⟨inner, a, List.mem_cons_self, (precedes_iff charted held).2 ⟨plain, rfl⟩⟩
      · exact ⟨leader, y, List.mem_cons_of_mem a earlier, precedes⟩

/-- A block goes on up to the next leader. -/
theorem Cut.after (charted : Charted space architecture start e)
    (cut : Cut e.decoded e.leaders a chain stop edges) {x y : Word} (member : x ∈ chain)
    (precedes : Precedes space architecture e x y) (held : e.decoded.contains y = true)
    (inside : e.leaders.contains y = false) : y ∈ chain := by
  induction cut with
  | ends here ends =>
    obtain rfl := List.mem_singleton.1 member
    have plain := ((precedes_iff charted here).1 precedes).1
    rw [ends] at plain
    cases plain
  | meets here plain leader =>
    obtain rfl := List.mem_singleton.1 member
    rw [((precedes_iff charted here).1 precedes).2, inside] at leader
    cases leader
  | fails here plain unknown =>
    obtain rfl := List.mem_singleton.1 member
    rw [((precedes_iff charted here).1 precedes).2, held] at unknown
    cases unknown
  | goesOn here plain inner rest ih =>
    rcases List.mem_cons.1 member with rfl | member
    · rw [((precedes_iff charted here).1 precedes).2] at rest
      exact List.mem_cons_of_mem _ rest.start_mem
    · exact List.mem_cons_of_mem _ (ih member)

/-- Where an edge leads to an instruction that is reached, there is a leader. -/
theorem Cut.edge_leader (charted : Charted space architecture start e)
    (cut : Cut e.decoded e.leaders a chain stop edges) {edge : BlockEdge} (member : edge ∈ edges)
    (direct : edge.kind ≠ .indirect) {target : Word} (aimed : edge.target = some target) :
    e.leaders.contains target = true := by
  induction cut with
  | @ends a i held ends =>
    obtain ⟨j, reached, fetched, rfl⟩ := charted.fetched held
    rcases List.mem_append.1 member with branch | next
    · obtain ⟨b, listed, made⟩ := List.mem_filterMap.1 branch
      obtain ⟨kind, kind_eq, rfl⟩ := Option.map_eq_some_iff.1 made
      refine charted.aimed reached fetched ⟨b, listed, ?_, aimed⟩
      cases b_kind : b.kind <;> simp [Discovery.edgeKind?, b_kind] at kind_eq <;> grind
    · split at next
      · simp at next
      · rename_i stays
        obtain rfl := List.mem_singleton.1 next
        cases aimed
        exact charted.resumed (i := j) reached fetched ends (Bool.eq_false_iff.2 stays)
  | meets held plain leader known =>
    obtain rfl := List.mem_singleton.1 member
    cases aimed
    exact leader
  | fails => simp at member
  | goesOn _ _ _ _ ih => exact ih member

/-- The last instruction of a block decides over its edges. -/
theorem Cut.edges_eq (charted : Charted space architecture start e)
    (cut : Cut e.decoded e.leaders a chain stop edges) {last : Word}
    (last_eq : chain.getLast? = some last) {i : Instruction}
    (fetched : fetch? space architecture last = some i) :
    (i.endsBlock = true → edges = Discovery.edgesOf i stop) ∧
      (i.endsBlock = false → Reaches space architecture start stop →
        edges = [⟨.fallthrough, some stop⟩]) ∧
      (i.endsBlock = false → ¬ Reaches space architecture start stop → edges = []) := by
  induction cut with
  | @ends a j held ends =>
    obtain rfl : a = last := by simpa using last_eq
    obtain rfl := charted.stored held fetched
    have ends : i.endsBlock = true := ends
    exact ⟨fun _ => rfl, by simp [ends], by simp [ends]⟩
  | @meets a j held plain leader known =>
    obtain rfl : a = last := by simpa using last_eq
    obtain rfl := charted.stored held fetched
    have plain : i.endsBlock = false := plain
    simp [plain, (charted.decoded_iff _).1 known]
  | @fails a j held plain unknown =>
    obtain rfl : a = last := by simpa using last_eq
    obtain rfl := charted.stored held fetched
    have plain : i.endsBlock = false := plain
    simp [plain, ← charted.decoded_iff, unknown]
  | goesOn held plain inner rest ih =>
    refine ih ?_
    rwa [List.getLast?_cons_of_ne_nil (List.ne_nil_of_mem rest.start_mem)] at last_eq

theorem Precedes.lt (charted : Charted space architecture start e)
    (grows : ∀ a i, e.decoded.get? a = some i → a < following a i) {x y : Word}
    (precedes : Precedes space architecture e x y) : x < y := by
  obtain ⟨i, held⟩ := (Table.contains_iff e.decoded x).1 precedes.1
  rw [← ((precedes_iff charted held).1 precedes).2]
  exact grows x i held

theorem mem_cutBlocks (grows : ∀ a i, e.decoded.get? a = some i → a < following a i)
    {b : BasicBlock} (member : b ∈ Discovery.cutBlocks e.decoded e.leaders) :
    e.leaders.contains b.start = true ∧
      ∃ chain, Cut e.decoded e.leaders b.start chain b.stop b.outgoing := by
  obtain ⟨leader, found, rfl⟩ := List.mem_map.1 member
  obtain ⟨key, known⟩ := List.mem_filter.1 found
  obtain ⟨_, held⟩ := (Table.mem_keys_iff e.leaders leader).1 key
  refine ⟨(Table.contains_iff e.leaders leader).2 ⟨_, held⟩,
    blockEnd_cut e.leaders grows (e.decoded.size + 1) leader known ?_⟩
  refine Nat.le_succ_of_le (Nat.le_trans (List.length_filter_le _ _) ?_)
  simp [Table.keys, Table.size]

theorem exists_cutBlocks {a : Word} (leader : e.leaders.contains a = true)
    (known : e.decoded.contains a = true) :
    ∃ b ∈ Discovery.cutBlocks e.decoded e.leaders, b.start = a := by
  obtain ⟨_, held⟩ := (Table.contains_iff e.leaders a).1 leader
  have key := (Table.mem_keys_iff e.leaders a).2 ⟨_, held⟩
  exact ⟨_, List.mem_map_of_mem (List.mem_filter.2 ⟨key, known⟩), rfl⟩

theorem cutBlocks_ascending (decoded : Table Word Instruction) (leaders : Table Word Unit) :
    (Discovery.cutBlocks decoded leaders).Pairwise fun b c => b.start < c.start := by
  rw [Discovery.cutBlocks, List.pairwise_map]
  exact leaders.keys_ascending.filter _

theorem cutBlocks_eq {decoded : Table Word Instruction} {leaders : Table Word Unit}
    {b c : BasicBlock} (member : b ∈ Discovery.cutBlocks decoded leaders)
    (member' : c ∈ Discovery.cutBlocks decoded leaders) (same : b.start = c.start) : b = c := by
  obtain ⟨leader, -, rfl⟩ := List.mem_map.1 member
  obtain ⟨leader', -, rfl⟩ := List.mem_map.1 member'
  obtain rfl : leader = leader' := same
  rfl

/-- Every instruction that is reached is in a block: in that of its own, or in that of the one that
precedes it. -/
theorem exists_block (charted : Charted space architecture start e)
    (grows : ∀ a i, e.decoded.get? a = some i → a < following a i) {x : Word}
    (known : e.decoded.contains x = true) :
    ∃ b ∈ Discovery.cutBlocks e.decoded e.leaders, ∃ chain,
      Cut e.decoded e.leaders b.start chain b.stop b.outgoing ∧ x ∈ chain := by
  induction size : x.toNat using Nat.strongRecOn generalizing x with
  | ind n ih =>
    have own (leader : e.leaders.contains x = true) :
        ∃ b ∈ Discovery.cutBlocks e.decoded e.leaders, ∃ chain,
          Cut e.decoded e.leaders b.start chain b.stop b.outgoing ∧ x ∈ chain := by
      obtain ⟨b, member, rfl⟩ := exists_cutBlocks leader known
      obtain ⟨-, chain, cut⟩ := mem_cutBlocks grows member
      exact ⟨b, member, chain, cut, cut.start_mem⟩
    cases leader : e.leaders.contains x with
    | true => exact own leader
    | false =>
      obtain ⟨y, precedes⟩ := (charted.origin known).resolve_left (by simp [leader])
      have before := UInt64.lt_iff_toNat_lt.1 (precedes.lt charted grows)
      obtain ⟨b, member, chain, cut, earlier⟩ := ih y.toNat (by omega) precedes.1 rfl
      exact ⟨b, member, chain, cut, cut.after charted earlier precedes known leader⟩

/-- Two blocks that hold one instruction begin at one leader: going back from it, each holds the one
instruction that precedes. -/
theorem Cut.start_eq (charted : Charted space architecture start e)
    (grows : ∀ a i, e.decoded.get? a = some i → a < following a i) {a a' stop' x : Word}
    {edges' : List BlockEdge} (cut : Cut e.decoded e.leaders a chain stop edges)
    (cut' : Cut e.decoded e.leaders a' chain' stop' edges')
    (leader : e.leaders.contains a = true) (leader' : e.leaders.contains a' = true)
    (known : ∀ y ∈ chain, e.decoded.contains y = true)
    (member : x ∈ chain) (member' : x ∈ chain') : a = a' := by
  induction size : x.toNat using Nat.strongRecOn generalizing x with
  | ind n ih =>
    rcases cut.before charted member with rfl | ⟨inner, y, earlier, precedes⟩
    · rcases cut'.before charted member' with same | ⟨inner, -⟩
      · exact same
      · rw [leader] at inner
        cases inner
    · rcases cut'.before charted member' with rfl | ⟨-, y', earlier', precedes'⟩
      · rw [leader'] at inner
        cases inner
      · obtain rfl := (charted.merged precedes precedes' (known x member)).resolve_right
          (by simp [inner])
        have before := UInt64.lt_iff_toNat_lt.1 (precedes.lt charted grows)
        exact ih y.toNat (by omega) earlier earlier' rfl

end Blocks

end Exploration

namespace Discovery

open Exploration

/-- The block is laid of instructions among which there is one at the address. -/
def Holds (space : Space) (architecture : Architecture) (b : BasicBlock) (a : Word) : Prop :=
  ∃ chain, Laid space architecture b.start chain b.stop ∧ a ∈ chain

/-- The blocks divide up the instructions that control reaches from the start. -/
structure Partitions (space : Space) (architecture : Architecture) (start : Word)
    (blocks : List BasicBlock) : Prop where
  laid : ∀ b ∈ blocks, ∃ chain, chain ≠ [] ∧ Laid space architecture b.start chain b.stop ∧
    ∀ a ∈ chain, Reaches space architecture start a
  placed : ∀ a, Reaches space architecture start a →
    ∃! b, b ∈ blocks ∧ Holds space architecture b a
  ascending : blocks.Pairwise fun b c => b.start < c.start
  /-- Control enters blocks at their starts only. -/
  entered : ∀ b ∈ blocks, ∀ edge ∈ b.outgoing, edge.kind ≠ .indirect →
    ∀ target, edge.target = some target → Reaches space architecture start target →
    ∃ c ∈ blocks, c.start = target
  /-- The last instruction of a block says how control leaves it. -/
  left : ∀ b ∈ blocks, ∀ front last i, Laid space architecture b.start (front ++ [last]) b.stop →
    fetch? space architecture last = some i →
    (i.endsBlock = true → b.outgoing = edgesOf i b.stop) ∧
    (i.endsBlock = false → Reaches space architecture start b.stop →
      b.outgoing = [⟨.fallthrough, some b.stop⟩] ∧ ∃ c ∈ blocks, c.start = b.stop) ∧
    (i.endsBlock = false → ¬ Reaches space architecture start b.stop → b.outgoing = [])
  covered : ∀ x, (∃ b ∈ blocks, b.contains x = true) ↔
    ∃ a i, Reaches space architecture start a ∧ fetch? space architecture a = some i ∧ a ≤ x ∧
      x.toNat < a.toNat + i.length
  /-- Where instructions do not overlap, neither do blocks. -/
  apart : (∀ a b i, Reaches space architecture start a → Reaches space architecture start b →
      fetch? space architecture a = some i → a < b → a.toNat + i.length ≤ b.toNat) →
    blocks.Pairwise fun b c => b.stop ≤ c.start

variable {space : Space} {architecture : Architecture} {start : Word} {limits : ExploreLimits}

theorem cutBlocks_partitions {e : Exploration} (charted : Charted space architecture start e)
    (advances : ∀ {a i}, fetch? space architecture a = some i →
      (following a i).toNat = a.toNat + i.length) :
    Partitions space architecture start (cutBlocks e.decoded e.leaders) := by
  have grows (a : Word) (i : Instruction) (held : e.decoded.get? a = some i) :
      a < following a i := by
    obtain ⟨j, -, fetched, rfl⟩ := charted.fetched held
    have := advances fetched
    have := (fetch?_eq_some_iff.1 fetched).2.2.1
    show a < following a j
    rw [UInt64.lt_iff_toNat_lt]
    omega
  have parts {b : BasicBlock} (member : b ∈ cutBlocks e.decoded e.leaders) :
      e.leaders.contains b.start = true ∧ ∃ chain,
        Cut e.decoded e.leaders b.start chain b.stop b.outgoing ∧
        Laid space architecture b.start chain b.stop ∧
        ∀ a ∈ chain, Reaches space architecture start a := by
    obtain ⟨leader, chain, cut⟩ := mem_cutBlocks grows member
    exact ⟨leader, chain, cut, cut.laid charted advances⟩
  have same {b c : BasicBlock} {x : Word} (member : b ∈ cutBlocks e.decoded e.leaders)
      (member' : c ∈ cutBlocks e.decoded e.leaders) (holds : Holds space architecture b x)
      (holds' : Holds space architecture c x) : b = c := by
    obtain ⟨leader, chain, cut, laid, reached⟩ := parts member
    obtain ⟨leader', chain', cut', laid', -⟩ := parts member'
    obtain ⟨_, other, inside⟩ := holds
    obtain ⟨_, other', inside'⟩ := holds'
    rw [← laid.unique other] at inside
    rw [← laid'.unique other'] at inside'
    refine cutBlocks_eq member member' (cut.start_eq charted grows cut' leader leader' ?_ inside
      inside')
    exact fun y member => (charted.decoded_iff y).2 (reached y member)
  have ascending := cutBlocks_ascending e.decoded e.leaders
  constructor
  case laid =>
    intro b member
    obtain ⟨-, chain, cut, laid⟩ := parts member
    exact ⟨chain, List.ne_nil_of_mem cut.start_mem, laid⟩
  case placed =>
    intro a reached
    obtain ⟨b, member, chain, cut, inside⟩ :=
      exists_block charted grows ((charted.decoded_iff a).2 reached)
    have holds : Holds space architecture b a := ⟨chain, (cut.laid charted advances).1, inside⟩
    exact ⟨b, ⟨member, holds⟩, fun c other => same other.1 member other.2 holds⟩
  case ascending => exact ascending
  case entered =>
    intro b member edge listed direct target aimed reached
    obtain ⟨-, chain, cut, -⟩ := parts member
    exact exists_cutBlocks (cut.edge_leader charted listed direct aimed)
      ((charted.decoded_iff target).2 reached)
  case left =>
    intro b member front last i laid fetched
    obtain ⟨-, chain, cut, laid', -⟩ := parts member
    have last_eq : chain.getLast? = some last := by simp [laid'.unique laid]
    obtain ⟨ends, meets, fails⟩ := cut.edges_eq charted last_eq fetched
    refine ⟨ends, fun plain reached => ⟨meets plain reached, ?_⟩, fails⟩
    have leader := cut.edge_leader charted (meets plain reached ▸ List.mem_singleton_self _)
      (by simp) rfl
    exact exists_cutBlocks leader ((charted.decoded_iff b.stop).2 reached)
  case covered =>
    intro x
    simp only [BasicBlock.contains, Bool.and_eq_true, decide_eq_true_eq]
    constructor
    · rintro ⟨b, member, inside⟩
      obtain ⟨-, chain, cut, laid, reached⟩ := parts member
      obtain ⟨a, there, i, fetched, from_start, before⟩ := laid.covers.1 inside
      exact ⟨a, i, reached a there, fetched, from_start, before⟩
    · rintro ⟨a, i, reached, fetched, inside⟩
      obtain ⟨b, member, chain, cut, there⟩ :=
        exists_block charted grows ((charted.decoded_iff a).2 reached)
      exact ⟨b, member, (cut.laid charted advances).1.covers.2 ⟨a, there, i, fetched, inside⟩⟩
  case apart =>
    intro separate
    refine ascending.imp_of_mem fun {b c} member member' before => ?_
    obtain ⟨-, chain, cut, laid, reached⟩ := parts member
    obtain ⟨-, chain', cut', laid', reached'⟩ := parts member'
    by_contra overlap
    rw [UInt64.not_le] at overlap
    obtain ⟨a, there, i, fetched, from_start, inside⟩ :=
      laid.covers.1 ⟨UInt64.le_of_lt before, overlap⟩
    rcases UInt64.lt_or_eq_of_le from_start with earlier | rfl
    · have := separate a c.start i (reached a there) (reached' _ cut'.start_mem) fetched earlier
      omega
    · obtain rfl := same member member' ⟨chain, laid, there⟩ ⟨chain', laid', cut'.start_mem⟩
      exact UInt64.lt_irrefl _ before

/-- Discovery that does not give up comes to its end after decoding each instruction that control
reaches once, and its blocks divide up these instructions. -/
theorem ofStart_partitions (reached : space.Reachable)
    (decodes : ∀ bytes a, (architecture.decode bytes a).length ≤ bytes.length)
    (whole : (ofStart space architecture limits start).skipped = false) :
    (∃ visits last, Runs space architecture ⟨none, .ofStart start, []⟩ ⟨none, last, visits⟩ ∧
      last = explore space architecture limits start exploreFuel none (.ofStart start) ∧
      last.pending = [] ∧ visits.Nodup ∧
      ∀ a, a ∈ visits ↔ Reaches space architecture start a) ∧
    Partitions space architecture start (ofStart space architecture limits start).blocks := by
  obtain ⟨filed, -⟩ := Space.reachable_filed reached
  unfold ofStart at whole ⊢
  simp only at whole ⊢
  split at whole
  · cases whole
  · rename_i completed
    rw [if_neg completed]
    obtain ⟨visits, runs, nothing, nodup, visited, charted⟩ :=
      explored exploreFuel (by decide) (Bool.eq_false_iff.2 completed)
    refine ⟨⟨visits, _, runs, rfl, nothing, nodup, visited⟩, ?_⟩
    exact cutBlocks_partitions charted fun fetched => (following_eq filed.map decodes fetched).1

/-- A conditional jump past two instructions, and behind them a jump back. -/
def loopSnapshot : Snapshot where
  savedAt := ⟨0, 0⟩
  viewType := "Mapped"
  architecture := none
  config := {}
  segments := [⟨1, ⟨0x10, 0x18⟩, 0, 8, .ofBits 7, true, []⟩]
  sections := []
  metadata := .empty
  userFunctions := []
  entryPoints := []
  contents := [0, 3, 2, 0, 0, 0, 2, 0xf9]
  modifications := []

def loopSpace : Space where
  backend := .mapped ""
  storage := ⟨.memory, [0, 3, 2, 0, 0, 0, 2, 0xf9], .ofRuns []⟩
  map := ⟨.insert .empty 0x10 ⟨1, ⟨0x10, 0x18⟩, 0, 8, .ofBits 7, true, []⟩, .empty, .empty, .empty,
    1⟩
  metadata := .empty
  functions := .empty
  undoLog := .empty
  scheduler := .initial
  architecture := none
  config := {}
  parentView := some "Raw"
  bulk := ⟨0, []⟩
  idsMade := 0

theorem loopSpace_reachable : loopSpace.Reachable :=
  .restored (show loopSnapshot.restore .standard = .ok loopSpace from rfl)
    fun _ => ⟨by decide, by decide⟩

theorem loop_partitions :
    (ofStart loopSpace Toy.little ⟨0x100, 8⟩ 0x10).blocks =
      [⟨0x10, 0x11, [⟨.fallthrough, some 0x11⟩]⟩,
        ⟨0x11, 0x13, [⟨.whenTrue, some 0x15⟩, ⟨.whenFalse, some 0x13⟩]⟩,
        ⟨0x13, 0x15, [⟨.fallthrough, some 0x15⟩]⟩, ⟨0x15, 0x18, [⟨.unconditional, some 0x11⟩]⟩] ∧
    Partitions loopSpace Toy.little 0x10 (ofStart loopSpace Toy.little ⟨0x100, 8⟩ 0x10).blocks :=
  ⟨by decide +kernel, (ofStart_partitions loopSpace_reachable (Toy.length_decode_le .little)
    (by decide +kernel)).2⟩

end Discovery

end BinaryAtlas
