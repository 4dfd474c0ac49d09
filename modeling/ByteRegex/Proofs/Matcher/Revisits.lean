import Mathlib.Algebra.Order.Interval.Set.SuccPred
import Mathlib.Data.Nat.SuccPred
import Mathlib.Order.CompletePartialOrder
import Mathlib.Order.Interval.Set.Disjoint
import ByteRegex.Proofs.Matcher.Nesting

/-!
# How often a walk comes back to a node

While the evaluations of some nodes are under way, each at its position, these make a trail. On a
trail no node stands at one position more often than there are loops around it, and once more. It
comes back to a position only through the tail of a loop, which then is an iteration behind and
begins one at this position. The next one would have to begin there too, and does not.

`Matcher.visitSparing` is the walk with a trail and a limit on how often a node may stand in it at
one position, and the limit is never met. `Trail.After` says what a part of the graph does to the
trail: the walk has come to each of its nodes once more if it leaves the part where it entered it,
and otherwise as often as there are loops in the part, and once more. This is handed to whatever
follows, and `Trail.Admitted` is what the part asks for.
-/

namespace ByteRegex

/-- The nodes under way, each with its position, latest first. -/
abbrev Trail := List (NodeId × Nat)

/-- The walk of `Matcher.visit` along a trail. Where a node stands in the trail `most` times at the
same position already, the outcome is `otherwise`. -/
def Matcher.visitSparing (m : Matcher) (most : Nat) (otherwise : Outcome) :
    (room : Nat) → Trail → Continue
  | _, _, none, pos, s => .matched pos s
  | 0, _, some _, pos, s => .failed (s.abandon m.verbosity pos)
  | room + 1, trail, some id, pos, s =>
    if trail.count (id, pos) < most then
      m.step (m.visitSparing most otherwise room ((id, pos) :: trail)) id pos s
    else otherwise

/-! ## Trails -/

namespace Trail

/-- The trail has not come further than to `pos`, and there to each of the nodes `count` times at
most. -/
structure Spares (trail : Trail) (nodes : Set NodeId) (pos count : Nat) : Prop where
  le_pos : ∀ e ∈ trail, e.2 ≤ pos
  count_le : ∀ id ∈ nodes, trail.count (id, pos) ≤ count

/-- How often a trail may have come to a node at `stop`, where it leaves a part with so many loops
around a point that it entered at `pos`, after `count` times there. -/
def visits (count loops pos stop : Nat) : Nat :=
  if stop = pos then count + 1 else loops + 1

/-- How often a trail may have come to a node at `stop` that is not visited on the way there from
`pos`, where it had come to it `count` times. -/
def kept (count pos stop : Nat) : Nat :=
  if stop = pos then count else 0

/-- The trail is `earlier` and then goes through some of the nodes. -/
def Extends (trail : Trail) (nodes : Set NodeId) (earlier : Trail) : Prop :=
  ∃ new, trail = new ++ earlier ∧ ∀ e ∈ new, e.1 ∈ nodes

/-- The trail is `earlier` up to `pos` and then goes through some of the nodes to `stop`, and there it
has come to each as often as `visits` says. -/
structure After (count loops : Nat) (nodes : Set NodeId) (earlier : Trail) (pos : Nat)
    (trail : Trail) (stop : Nat) : Prop where
  pos_le : pos ≤ stop
  extend : trail.Extends nodes earlier
  spares : trail.Spares nodes stop (visits count loops pos stop)

/-- A trail that has come to the nodes `count` times at `pos`, which is less than the limit, and for
which `K` holds wherever it leaves them. -/
structure Admitted (most count loops : Nat) (nodes : Set NodeId) (K : Trail → Nat → Prop)
    (trail : Trail) (pos : Nat) : Prop where
  lt_most : count < most
  spares : trail.Spares nodes pos count
  leads : ∀ later stop, After count loops nodes trail pos later stop → K later stop

theorem visits_mono {count loops more : Nat} (h : loops ≤ more) (pos stop : Nat) :
    visits count loops pos stop ≤ visits count more pos stop := by
  unfold visits
  split
  · exact Nat.le_refl _
  · omega

theorem kept_lt_visits (count loops pos stop : Nat) :
    kept count pos stop < visits count loops pos stop := by
  unfold kept visits
  split <;> omega

theorem kept_le (count pos stop : Nat) : kept count pos stop ≤ count := by
  unfold kept
  split
  · exact Nat.le_refl count
  · exact Nat.zero_le count

/-- A part that is entered behind another allows no more than both together. -/
theorem visits_le {count count' loops loops' pos stop : Nat} (h : count' < visits count loops pos stop)
    (hloops : loops' ≤ loops) (hpos : pos ≤ stop) {last : Nat} (hstop : stop ≤ last) :
    visits count' loops' stop last ≤ visits count loops pos last := by
  by_cases hlast : last = stop
  · rw [visits, if_pos hlast, hlast]
    exact h
  · rw [visits, if_neg hlast, visits, if_neg (by omega)]
    omega

namespace Spares

variable {trail : Trail} {nodes : Set NodeId} {pos count : Nat}

theorem subset (h : trail.Spares nodes pos count) {fewer : Set NodeId} (hfewer : fewer ⊆ nodes) :
    trail.Spares fewer pos count :=
  ⟨h.le_pos, fun id hid => h.count_le id (hfewer hid)⟩

/-- It has not come to any node further on. -/
theorem count_eq_zero (h : trail.Spares nodes pos count) {stop : Nat} (hstop : pos < stop)
    (id : NodeId) : trail.count (id, stop) = 0 := by
  rw [List.count_eq_zero]
  intro hmem
  have hle := h.le_pos _ hmem
  omega

theorem count_le_kept (h : trail.Spares nodes pos count) {stop : Nat} (hstop : pos ≤ stop)
    {id : NodeId} (hid : id ∈ nodes) : trail.count (id, stop) ≤ kept count pos stop := by
  unfold kept
  split
  · next heq => exact heq ▸ h.count_le id hid
  · exact Nat.le_of_eq (h.count_eq_zero (by omega) id)

end Spares

namespace Extends

variable {trail earlier later : Trail} {nodes : Set NodeId}

theorem mono (h : trail.Extends nodes earlier) {more : Set NodeId} (hmore : nodes ⊆ more) :
    trail.Extends more earlier := by
  obtain ⟨new, hnew, hmem⟩ := h
  exact ⟨new, hnew, fun e he => hmore (hmem e he)⟩

theorem trans (h : trail.Extends nodes earlier) (hlater : later.Extends nodes trail) :
    later.Extends nodes earlier := by
  obtain ⟨new, rfl, hmem⟩ := h
  obtain ⟨new', rfl, hmem'⟩ := hlater
  refine ⟨new' ++ new, (List.append_assoc new' new earlier).symm, ?_⟩
  rw [List.forall_mem_append]
  exact ⟨hmem', hmem⟩

/-- Other nodes stand in the trail as often as before. -/
theorem count_eq (h : trail.Extends nodes earlier) {id : NodeId} (hid : id ∉ nodes) (pos : Nat) :
    trail.count (id, pos) = earlier.count (id, pos) := by
  obtain ⟨new, rfl, hmem⟩ := h
  rw [List.count_append, Nat.add_eq_right, List.count_eq_zero]
  exact fun he => hid (hmem _ he)

end Extends

namespace After

variable {count count' loops loops' pos stop last : Nat} {nodes others : Set NodeId}
  {earlier trail later : Trail}

/-- What is known of nodes that are not visited. -/
theorem spares_others (h : After count loops nodes earlier pos trail stop)
    (hothers : earlier.Spares others pos count) (hdisjoint : Disjoint nodes others) :
    trail.Spares others stop (kept count pos stop) := by
  refine ⟨h.spares.le_pos, fun id hid => ?_⟩
  rw [h.extend.count_eq (hdisjoint.notMem_of_mem_right hid)]
  exact hothers.count_le_kept h.pos_le hid

/-- No node is visited. -/
theorem refl (h : trail.Spares nodes pos count) (loops : Nat) :
    After count loops nodes trail pos trail pos := by
  refine ⟨Nat.le_refl pos, ⟨[], rfl, fun _ he => nomatch he⟩, h.le_pos, fun id hid => ?_⟩
  have hcount := h.count_le id hid
  rw [visits, if_pos rfl]
  omega

/-- One node is visited, and left at the same position or further on. -/
theorem visit {here : NodeId} (h : trail.Spares {here} pos count) (hstop : pos ≤ stop)
    (loops : Nat) : After count loops {here} trail pos ((here, pos) :: trail) stop := by
  refine ⟨hstop, ⟨[(here, pos)], rfl, by simp⟩, ?_, ?_⟩
  · rw [List.forall_mem_cons]
    exact ⟨hstop, fun e he => Nat.le_trans (h.le_pos e he) hstop⟩
  · rintro id rfl
    have hkept := h.count_le_kept hstop rfl
    have hvisits := kept_lt_visits count loops pos stop
    rw [List.count_cons]
    split <;> omega

/-- More nodes, which are not visited, and more loops. -/
theorem widen (h : After count loops nodes earlier pos trail stop)
    (hothers : earlier.Spares others pos count) (hnodes : nodes ⊆ others) (hloops : loops ≤ loops') :
    After count loops' others earlier pos trail stop := by
  refine ⟨h.pos_le, h.extend.mono hnodes, h.spares.le_pos, fun id hid => ?_⟩
  by_cases hin : id ∈ nodes
  · exact Nat.le_trans (h.spares.count_le id hin) (visits_mono hloops pos stop)
  · rw [h.extend.count_eq hin]
    have hkept := hothers.count_le_kept h.pos_le hid
    have hvisits := kept_lt_visits count loops' pos stop
    omega

/-- One part after another. -/
theorem trans (h : After count loops nodes earlier pos trail stop)
    (hnext : After count' loops' others trail stop later last)
    (hdisjoint : Disjoint nodes others) {more : Nat} (hloops : loops ≤ more) (hloops' : loops' ≤ more)
    (hcount : count' < visits count more pos stop) :
    After count more (nodes ∪ others) earlier pos later last := by
  have hextend := (h.extend.mono Set.subset_union_left).trans
    (hnext.extend.mono (Set.subset_union_right (s := nodes)))
  refine ⟨Nat.le_trans h.pos_le hnext.pos_le, hextend, hnext.spares.le_pos, ?_⟩
  rintro id (hid | hid)
  · rw [hnext.extend.count_eq (hdisjoint.notMem_of_mem_left hid)]
    by_cases hlast : last = stop
    · rw [hlast]
      exact Nat.le_trans (h.spares.count_le id hid) (visits_mono hloops pos stop)
    · have hstop := hnext.pos_le
      rw [h.spares.count_eq_zero (by omega)]
      exact Nat.zero_le _
  · exact Nat.le_trans (hnext.spares.count_le id hid)
      (visits_le hcount hloops' h.pos_le hnext.pos_le)

/-- The same part once more, further on. -/
theorem again (h : After count loops nodes earlier pos trail stop) (hstop : pos < stop)
    (hloops : loops + 1 ≤ loops')
    (hnext : After (loops + 1) loops' nodes trail stop later last) :
    After count loops' nodes earlier pos later last := by
  refine ⟨Nat.le_trans h.pos_le hnext.pos_le, h.extend.trans hnext.extend, hnext.spares.le_pos, ?_⟩
  intro id hid
  refine Nat.le_trans (hnext.spares.count_le id hid) ?_
  refine visits_le ?_ (Nat.le_refl loops') h.pos_le hnext.pos_le
  rw [visits, if_neg (by omega)]
  omega

end After

namespace Admitted

variable {most count loops loops' pos : Nat} {nodes others : Set NodeId} {K : Trail → Nat → Prop}
  {trail : Trail}

/-- A part may be left out. -/
theorem skip (h : Admitted most count loops nodes K trail pos) : K trail pos :=
  h.leads trail pos (.refl h.spares loops)

/-- Some of the nodes. -/
theorem subset (h : Admitted most count loops nodes K trail pos) {fewer : Set NodeId}
    (hfewer : fewer ⊆ nodes) (hloops : loops' ≤ loops) :
    Admitted most count loops' fewer K trail pos :=
  ⟨h.lt_most, h.spares.subset hfewer,
    fun later stop hlater => h.leads later stop (hlater.widen h.spares hfewer hloops)⟩

/-- Before one part, after which comes another. -/
theorem split (h : Admitted most count loops (nodes ∪ others) K trail pos)
    (hdisjoint : Disjoint nodes others) {first second : Nat} (hfirst : first ≤ loops)
    (hsecond : second ≤ loops) :
    Admitted most count first nodes
      (fun later stop => Admitted most (kept count pos stop) second others K later stop) trail pos := by
  have hothers := h.spares.subset (Set.subset_union_right (s := nodes))
  refine ⟨h.lt_most, h.spares.subset Set.subset_union_left, fun later stop hlater => ?_⟩
  refine ⟨Nat.lt_of_le_of_lt (kept_le count pos stop) h.lt_most,
    hlater.spares_others hothers hdisjoint, fun last final hlast => ?_⟩
  exact h.leads last final
    (hlater.trans hlast hdisjoint hfirst hsecond (kept_lt_visits count loops pos stop))

/-- A node of its own may be visited and then left. -/
theorem visit {here : NodeId} (h : Admitted most count loops {here} K trail pos) {stop : Nat}
    (hstop : pos ≤ stop) : K ((here, pos) :: trail) stop :=
  h.leads _ stop (.visit h.spares hstop loops)

/-- Behind an iteration that ends further on, a loop may be entered again. -/
theorem again (h : Admitted most count loops' nodes K trail pos) (hloops : loops + 1 ≤ loops')
    (hmost : loops' < most) {later : Trail} {stop : Nat}
    (hlater : After count loops nodes trail pos later stop) (hstop : pos < stop) :
    Admitted most (loops + 1) loops' nodes K later stop := by
  have hspares := hlater.spares
  rw [visits, if_neg (by omega)] at hspares
  exact ⟨by omega, hspares, fun last final hlast =>
    h.leads last final (hlater.again hstop hloops hlast)⟩

/-- For what follows it may be enough to know what the trail has gone through. -/
theorem after (h : Admitted most count loops' nodes K trail pos) (loops : Nat)
    {fewer : Set NodeId} (hfewer : fewer ⊆ nodes) :
    Admitted most count loops fewer (After count loops fewer trail pos) trail pos :=
  ⟨h.lt_most, h.spares.subset hfewer, fun _ _ => id⟩

end Admitted

/-- The nodes are admitted to the trail, however often it has come to them. -/
def Before (most loops : Nat) (nodes : Set NodeId) (K : Trail → Nat → Prop) (trail : Trail)
    (pos : Nat) : Prop :=
  ∃ count, Admitted most count loops nodes K trail pos

end Trail

open Trail

/-- From `id` on, along any trail that `K` allows and in any state that the frame admits, the limit
on visits is not met. -/
def Matcher.Sparing (m : Matcher) (most : Nat) (otherwise : Outcome) (id : Option NodeId) (f : Frame)
    (K : Trail → Nat → Prop) : Prop :=
  ∀ room trail pos s, f.Admits m pos s → K trail pos →
    m.visitSparing most otherwise room trail id pos s = m.visit room id pos s

/-! ## Nodes -/

section

variable {m : Matcher} {most : Nat} {otherwise : Outcome} {f : Frame} {here : NodeId}
  {next : Option NodeId} {K : Trail → Nat → Prop}

theorem Matcher.Sparing.mono {id : Option NodeId} (h : m.Sparing most otherwise id f K)
    {K' : Trail → Nat → Prop} (hK : ∀ trail pos, K' trail pos → K trail pos) :
    m.Sparing most otherwise id f K' :=
  fun room trail pos s hs htrail => h room trail pos s hs (hK trail pos htrail)

/-- A node that may be visited is, and then it goes on along the trail with it. -/
theorem Matcher.Sparing.of_step {node : Node} (hnode : m.program.nodes[here]? = some node)
    (h : ∀ trail pos s, f.Admits m pos s → K trail pos → trail.count (here, pos) < most ∧
      ∀ room id stop t, m.GoesOn node pos s id stop t →
        m.visitSparing most otherwise room ((here, pos) :: trail) id stop t =
          m.visit room id stop t) :
    m.Sparing most otherwise (some here) f K := by
  intro room trail pos s hs htrail
  cases room with
  | zero => rfl
  | succ room =>
      obtain ⟨hcount, hgo⟩ := h trail pos s hs htrail
      rw [visitSparing, if_pos hcount, visit_succ]
      exact step_congr (visit_restores m room) hnode (hgo room)

theorem Matcher.Sparing.endOfChain (m : Matcher) (most : Nat) (otherwise : Outcome) (f : Frame)
    (K : Trail → Nat → Prop) : m.Sparing most otherwise none f K := by
  intro room trail pos s _ _
  rw [visit_none]
  cases room <;> rfl

/-- A node of its own that goes on with what follows and leaves the tables. -/
theorem Matcher.Sparing.of_next {node : Node} {loops : Nat}
    (hnode : m.program.nodes[here]? = some node) (hnext : m.Sparing most otherwise next f K)
    (hgo : ∀ pos s id stop t, m.GoesOn node pos s id stop t → id = next ∧ s.SameTables t) :
    m.Sparing most otherwise (some here) f (Before most loops (Set.Ico here (here + 1)) K) := by
  rw [Set.Ico_add_one_right_eq_Icc, Set.Icc_self]
  refine .of_step hnode ?_
  rintro trail pos s hs ⟨count, hadmitted⟩
  have hcount := hadmitted.spares.count_le here rfl
  refine ⟨Nat.lt_of_le_of_lt hcount hadmitted.lt_most, fun room id stop t ht => ?_⟩
  obtain ⟨rfl, htables⟩ := hgo pos s id stop t ht
  exact hnext room _ stop t ((hs.of_sameTables htables).later ht.pos_le (ht.le_size hs.le_size))
    (hadmitted.visit ht.pos_le)

end

/-! ## Groups -/

/-- The alternatives that begin at `entries` and meet at `tail` do not meet the limit, whatever the
tail allows. -/
def Matcher.EntriesSparing (m : Matcher) (most : Nat) (otherwise : Outcome) (entries : List NodeId)
    (tail : NodeId) (numbers : List Nat) (nodes : Set NodeId) (loops : Nat) : Prop :=
  ∀ f K, f.Covers m numbers → m.Sparing most otherwise (some tail) f K →
    ∀ entry ∈ entries, m.Sparing most otherwise (some entry) f (Before most loops nodes K)

section

variable {m : Matcher} {most : Nat} {otherwise : Outcome} {f : Frame} {times : Repeat}
  {number : Nat} {numbers : List Nat} {entries : List NodeId} {head tail : NodeId}
  {next : Option NodeId} {nodes : Set NodeId} {inner loops : Nat} {K : Trail → Nat → Prop}
  (hcovers : f.Covers m (number :: numbers))
  (hentries : m.EntriesSparing most otherwise entries tail numbers nodes inner)
include hcovers hentries

/-- An iteration begins along a trail that may go through the whole group. -/
theorem iteration_sparing {count pos : Nat} {trail : Trail} {s t : State} {entry : NodeId}
    (htail : m.Sparing most otherwise (some tail)
      (s.inside (slotOf number) pos (slotsOf numbers)) (After count inner nodes trail pos))
    (hs : f.Admits m pos s) (htrail : Admitted most count loops (nodes ∪ {tail}) K trail pos)
    (hentry : entry ∈ entries) (ht : (s.setStart (slotOf number) pos).SameTables t) (room : Nat) :
    m.visitSparing most otherwise room trail (some entry) pos t =
      m.visit room (some entry) pos t :=
  hentries _ _ (hcovers.inside s pos) htail entry hentry room trail pos t
    (hs.beginIteration ht (slotsOf numbers)) ⟨count, htrail.after inner Set.subset_union_left⟩

variable (hhead : m.program.nodes[head]? = some (.groupHead (slotOf number) times entries tail))
  (htail : m.program.nodes[tail]? = some (.groupTail (slotOf number) head next))
  (htailNodes : tail ∉ nodes) (hinner : inner ≤ loops)
  (hloop : times.isUnbounded = true → inner + 1 ≤ loops) (hmost : loops < most)
  (hnext : m.Sparing most otherwise next f K)
include hhead htail htailNodes hinner hloop hmost hnext

/-- The tail of a group is visited behind an iteration that began at `start`. Only behind a byte is
there another one. The induction is on the bytes that are left. -/
theorem groupTail_sparing {count start : Nat} {earlier : Trail} {u : State}
    (hu : f.Admits m start u)
    (hearlier : Admitted most count loops (nodes ∪ {tail}) K earlier start) :
    m.Sparing most otherwise (some tail) (u.inside (slotOf number) start (slotsOf numbers))
      (After count inner nodes earlier start) := by
  refine .of_step htail fun trail pos s hs hafter => ?_
  have hdisjoint : Disjoint nodes {tail} := Set.disjoint_singleton_right.mpr htailNodes
  have hspares := hafter.spares_others
    (hearlier.spares.subset (Set.subset_union_right (s := nodes))) hdisjoint
  have hkept := Nat.lt_of_le_of_lt (kept_le count start pos) hearlier.lt_most
  have hvisited := hafter.trans (.visit hspares (Nat.le_refl pos) inner) hdisjoint
    (Nat.le_refl inner) (Nat.le_refl inner) (kept_lt_visits count inner start pos)
  refine ⟨Nat.lt_of_le_of_lt (hspares.count_le tail rfl) hkept, fun room id stop t ht => ?_⟩
  have hset := hs.afterIteration hu hcovers
  have hstart := hs.start_of_inside hu.fits hcovers.head_inRange hcovers.head_notMem
  cases ht with
  | again hread hnode hagain hentry htables =>
      cases hstart.symm.trans hread
      cases hhead.symm.trans hnode
      obtain ⟨hrepeat, hlater, rfl⟩ := Matcher.againAt_eq_some.mp hagain
      have hanother := hearlier.again (hloop hrepeat) hmost hvisited hlater
      have hless := groupTail_sparing hset hanother
      exact iteration_sparing hcovers hentries hless hset hanother hentry htables room
  | leave hread htables =>
      cases hstart.symm.trans hread
      exact hnext room _ pos t (hset.of_sameTables htables)
        (hearlier.leads _ pos (hvisited.widen hearlier.spares subset_rfl hinner))
termination_by m.text.size - start
decreasing_by
  have := hs.le_size
  omega

theorem groupHead_sparing (hheadNodes : head ∉ nodes ∪ {tail}) :
    m.Sparing most otherwise (some head) f
      (Before most loops ({head} ∪ (nodes ∪ {tail})) K) := by
  refine .of_step hhead ?_
  rintro trail pos s hs ⟨count, hadmitted⟩
  have hsplit := hadmitted.split (Set.disjoint_singleton_left.mpr hheadNodes) (Nat.zero_le loops)
    (Nat.le_refl loops)
  have hrest := hsplit.visit (Nat.le_refl pos)
  have hcount := hsplit.spares.count_le head rfl
  refine ⟨Nat.lt_of_le_of_lt hcount hsplit.lt_most, fun room id stop t ht => ?_⟩
  cases ht with
  | enter hentry htables =>
      have hiterate := groupTail_sparing hcovers hentries hhead htail htailNodes hinner hloop hmost
        hnext hs hrest
      exact iteration_sparing hcovers hentries hiterate hs hrest hentry htables room
  | skip _ hnode htables =>
      cases htail.symm.trans hnode
      exact hnext room _ pos t (hs.of_sameTables htables) hrest.skip

end

/-! ## Trees -/

/-- The nodes of a group: its head, its alternatives and its tail. -/
theorem group_nodes (here count : Nat) :
    Set.Ico here (here + (2 + count)) =
      {here} ∪ (Set.Ico (here + 2) (here + 2 + count) ∪ {here + 1}) := by
  ext id
  simp only [Set.mem_Ico, Set.mem_union, Set.mem_singleton_iff]
  omega

mutual

/-- The nodes of an item do not meet a limit above the number of loops, whatever they continue
with. -/
theorem Item.nodes_sparing {m : Matcher} {most : Nat} {otherwise : Outcome} {f : Frame}
    {K : Trail → Nat → Prop} : ∀ (item : Item) (times : Repeat) (here : NodeId)
      (next : Option NodeId), m.program.Places here (item.nodes times here next) →
      item.loopDepth times < most → f.Covers m item.numbers → m.Sparing most otherwise next f K →
        m.Sparing most otherwise (some here) f
          (Before most (item.loopDepth times) (Set.Ico here (here + item.nodeCount)) K)
  | .byte b, times, here, next, hplaces, _, _, hnext => by
      rw [Item.nodes] at hplaces
      exact .of_next hplaces.head hnext fun _ _ _ _ _ => Matcher.GoesOn.of_bytes
  | .any, times, here, next, hplaces, _, _, hnext => by
      rw [Item.nodes] at hplaces
      exact .of_next hplaces.head hnext fun _ _ _ _ _ => Matcher.GoesOn.of_bytes
  | .oneOf written negated, times, here, next, hplaces, _, _, hnext => by
      rw [Item.nodes] at hplaces
      exact .of_next hplaces.head hnext fun _ _ _ _ _ => Matcher.GoesOn.of_bytes
  | .backreference number, times, here, next, hplaces, _, _, hnext => by
      rw [Item.nodes] at hplaces
      exact .of_next hplaces.head hnext fun _ _ _ _ _ => Matcher.GoesOn.of_backreference
  | .endAnchor, times, here, next, hplaces, _, _, hnext => by
      rw [Item.nodes] at hplaces
      exact .of_next hplaces.head hnext fun _ _ _ _ _ ht => nomatch ht
  | .quantified q inner, times, here, next, hplaces, hmost, hcovers, hnext => by
      rw [Item.nodes] at hplaces
      rw [Item.loopDepth] at hmost ⊢
      rw [Item.numbers] at hcovers
      rw [Item.nodeCount]
      exact Item.nodes_sparing inner q.times here next hplaces hmost hcovers hnext
  | .group number alternatives, times, here, next, hplaces, hmost, hcovers, hnext => by
      rw [Item.loopDepth] at hmost ⊢
      rw [Item.numbers] at hcovers
      rw [Item.nodeCount, group_nodes]
      have hloop : times.isUnbounded = true → branchesLoopDepth alternatives + 1 ≤
          branchesLoopDepth alternatives + if times.isUnbounded then 1 else 0 := by
        intro hrepeat
        rw [if_pos hrepeat]
      exact groupHead_sparing hcovers
        (branchesNodes_sparing alternatives (here + 1) (here + 2) hplaces.group_branches
          (by omega))
        hplaces.group_head hplaces.group_tail (by simp) (Nat.le_add_right _ _) hloop hmost hnext
        (by simp)

theorem itemsNodes_sparing {m : Matcher} {most : Nat} {otherwise : Outcome} {f : Frame}
    {K : Trail → Nat → Prop} : ∀ (items : List Item) (here : NodeId) (exit : Option NodeId),
      m.program.Places here (itemsNodes here exit items) → itemsLoopDepth items < most →
      f.Covers m (itemsNumbers items) → m.Sparing most otherwise exit f K →
        m.Sparing most otherwise (entryOf items here exit) f
          (Before most (itemsLoopDepth items) (Set.Ico here (here + itemsNodeCount items)) K)
  | [], here, exit, _, _, _, hexit => by
      rw [entryOf_nil]
      exact hexit.mono fun trail pos ⟨_, hadmitted⟩ => hadmitted.skip
  | item :: rest, here, exit, hplaces, hmost, hcovers, hexit => by
      rw [itemsLoopDepth, Nat.max_lt] at hmost
      rw [itemsNumbers_cons] at hcovers
      have hrest := itemsNodes_sparing rest (here + item.nodeCount) exit hplaces.later_items
        hmost.2 hcovers.right hexit
      have hfirst := Item.nodes_sparing item .once here _ hplaces.first_item hmost.1 hcovers.left
        hrest
      have hunion := Set.Ico_union_Ico_eq_Ico (Nat.le_add_right here item.nodeCount)
        (Nat.le_add_right (here + item.nodeCount) (itemsNodeCount rest))
      rw [entryOf_cons, itemsNodeCount, ← Nat.add_assoc, ← hunion]
      refine hfirst.mono fun trail pos ⟨count, hadmitted⟩ => ⟨count, ?_⟩
      have hsplit := hadmitted.split Set.Ico_disjoint_Ico_same
        (Nat.le_max_left (item.loopDepth .once) (itemsLoopDepth rest))
        (Nat.le_max_right (item.loopDepth .once) (itemsLoopDepth rest))
      exact ⟨hsplit.lt_most, hsplit.spares,
        fun later stop hlater => ⟨_, hsplit.leads later stop hlater⟩⟩

theorem branchesNodes_sparing {m : Matcher} {most : Nat} {otherwise : Outcome} :
    ∀ (branches : List (List Item)) (tail here : NodeId),
      m.program.Places here (branchesNodes tail here branches) → branchesLoopDepth branches < most →
        m.EntriesSparing most otherwise (branchEntries tail here branches) tail
          (branchesNumbers branches) (Set.Ico here (here + branchesNodeCount branches))
          (branchesLoopDepth branches)
  | [], tail, here, _, _ => fun _ _ _ _ _ hentry => nomatch hentry
  | items :: rest, tail, here, hplaces, hmost => by
      rw [branchesLoopDepth, Nat.max_lt] at hmost
      intro f K hcovers htail
      rw [branchesNumbers_cons] at hcovers
      rw [branchEntries, branchesNodeCount, branchesLoopDepth, List.forall_mem_cons]
      have hfirst := itemsNodes_sparing items here (some tail) hplaces.first_branch hmost.1
        hcovers.left htail
      rw [entryOf_tail] at hfirst
      refine ⟨hfirst.mono fun trail pos ⟨count, hadmitted⟩ => ⟨count, ?_⟩, fun entry hentry => ?_⟩
      · refine hadmitted.subset ?_ (Nat.le_max_left _ _)
        exact Set.Ico_subset_Ico_right (Nat.add_le_add_left (Nat.le_add_right _ _) here)
      · have hothers := branchesNodes_sparing rest tail (here + itemsNodeCount items)
          hplaces.later_branches hmost.2 f K hcovers.right htail entry hentry
        refine hothers.mono fun trail pos ⟨count, hadmitted⟩ => ⟨count, ?_⟩
        refine hadmitted.subset ?_ (Nat.le_max_right _ _)
        exact Set.Ico_subset_Ico (Nat.le_add_right _ _) (Nat.le_of_eq (Nat.add_assoc _ _ _))

end

/-! ## Attempts -/

/-- An attempt over the graph of a readable pattern comes to no node at one position more often than
there are loops around a point of the pattern, and once more. -/
theorem Pattern.Readable.attempt_sparing {p : Pattern} (hread : p.Readable) {m : Matcher}
    (hprogram : p.toProgram = .ok m.program) (otherwise : Outcome) (limit : Nat) {pos : Nat}
    (hpos : pos ≤ m.text.size) {s : State} (hs : s.HasSlots p.groups) :
    m.visitSparing (itemsLoopDepth p.items + 1) otherwise limit [] m.program.root pos s.reset =
      m.attempt limit pos s := by
  obtain ⟨_, _, hroot, hslots⟩ := Pattern.toProgram_eq_ok_iff.mp hprogram
  have hend := Matcher.Sparing.endOfChain m (itemsLoopDepth p.items + 1) otherwise
    ⟨pos, s.reset.starts, List.range p.groups⟩ fun _ _ => True
  have hsparing := itemsNodes_sparing p.items 0 none (Pattern.toProgram_places hprogram)
    (Nat.lt_succ_self _) (hread.covers hslots pos s.reset.starts) hend
  have hempty : Spares [] (Set.Ico 0 (0 + itemsNodeCount p.items)) pos 0 :=
    ⟨fun _ he => (nomatch he), fun _ _ => Nat.le_refl 0⟩
  rw [Matcher.attempt, hroot]
  exact hsparing limit [] pos s.reset (State.reset_admits hs hslots hpos)
    ⟨0, Nat.succ_pos _, hempty, fun _ _ _ => trivial⟩

/-- All nodes once and, for each byte, once more for each loop around them are no more than all
nodes at all positions, as often as there are loops around them and once more. -/
theorem nodes_add_rate_le (items : List Item) (bytes : Nat) :
    itemsNodeCount items + itemsRate items * bytes ≤
      itemsNodeCount items * (itemsLoopDepth items + 1) * (bytes + 1) := by
  have hrate := Nat.mul_le_mul_right bytes (itemsRate_le items)
  generalize itemsNodeCount items = nodes at hrate ⊢
  generalize itemsLoopDepth items = loops at hrate ⊢
  calc nodes + itemsRate items * bytes
      ≤ nodes + nodes * loops * bytes := Nat.add_le_add_left hrate nodes
    _ ≤ nodes * (loops + 1) + nodes * (loops + 1) * bytes :=
        Nat.add_le_add (Nat.le_mul_of_pos_right nodes (Nat.succ_pos loops))
          (Nat.mul_le_mul_right bytes (Nat.mul_le_mul_left nodes (Nat.le_succ loops)))
    _ = nodes * (loops + 1) * (bytes + 1) := by rw [Nat.mul_succ (_ * _), Nat.add_comm]

/-- Every text that is a pattern compiles to a graph on which repetition makes progress. While the
evaluations of some nodes are under way, none of these nodes stands at one position more often than
there are groups under `*` or `+` around a point of the pattern, and once more: a walk that would do
something else there, whatever it is, is the attempt. So an attempt gives up no path if the limit
leaves room for all nodes, this often, at all positions from its start to the end of the text.

`Matcher.matchAt` is the attempt with the limit `maxDepth`. -/
theorem repetition_makes_progress (text : String) (p : Pattern) (h : Pattern.ofString text = .ok p) :
    ∃ program, p.toProgram = .ok program ∧
      ∀ (m : Matcher) (limit pos : Nat) (s : State), m.program = program → pos ≤ m.text.size →
        s.HasSlots p.groups →
          (∀ otherwise, m.visitSparing (itemsLoopDepth p.items + 1) otherwise limit [] program.root
            pos s.reset = m.attempt limit pos s) ∧
          (program.nodes.size * (itemsLoopDepth p.items + 1) * (m.text.size - pos + 1) ≤ limit →
            (m.attempt limit pos s).state.deep = false) := by
  obtain ⟨program, hprogram⟩ := Pattern.exists_toProgram_of_ofBytes h
  refine ⟨program, hprogram, ?_⟩
  rintro m limit pos s rfl hpos hs
  have hread := Pattern.readable_of_ofBytes h
  refine ⟨fun otherwise => hread.attempt_sparing hprogram otherwise limit hpos hs, fun hlimit => ?_⟩
  refine hread.attempt_unmarked hprogram hpos hs (Nat.le_trans ?_ hlimit)
  rw [Pattern.size_toProgram hprogram]
  exact nodes_add_rate_le p.items _

/-- Two loops around an alternative without a byte. There are five nodes, and with one byte to go a
limit of thirty is enough. Behind the byte the tail of the inner loop is under way three times at
once, at the end of the text; a walk that would come to no node more than twice at one position is
another one. -/
theorem repetition_makes_progress_nullable :
    ∃ (p : Pattern) (m : Matcher), Pattern.ofString "((a|)*)*" = .ok p ∧
      p.toProgram = .ok m.program ∧ m.program.nodes.size = 5 ∧ itemsLoopDepth p.items = 2 ∧
      m.text = #[97] ∧ (m.attempt 30 0 (.fresh 2)).state.deep = false ∧
      (∀ otherwise, m.visitSparing 3 otherwise 30 [] m.program.root 0 (State.fresh 2).reset =
        m.attempt 30 0 (.fresh 2)) ∧
      m.visitSparing 2 (.failed (.fresh 2)) 30 [] m.program.root 0 (State.fresh 2).reset ≠
        m.attempt 30 0 (.fresh 2) := by
  let p : Pattern := ⟨false, [.quantified .star (.group 1
    [[.quantified .star (.group 2 [[.byte 97], []])]])], 2⟩
  have hread : Pattern.ofString "((a|)*)*" = .ok p := (Pattern.ofString_eq _).trans rfl
  obtain ⟨program, hprogram, hprogress⟩ := repetition_makes_progress _ p hread
  have hgraph := hprogram
  cases hgraph
  obtain ⟨hsparing, hdeep⟩ := hprogress ⟨_, #[97], .error⟩ 30 0 (.fresh 2) rfl (Nat.zero_le _)
    (State.hasSlots_fresh 2)
  exact ⟨p, ⟨_, #[97], .error⟩, hread, hprogram, rfl, rfl, rfl, hdeep (by decide +kernel), hsparing,
    by decide +kernel⟩

end ByteRegex
