import ByteRegex.Proofs.Matcher.ByteRuns
import ByteRegex.Proofs.Matcher.ClosedGraphs
import ByteRegex.Proofs.Matcher.Walk

/-!
# Where a node goes on

`Matcher.GoesOn` says with what a node may go on: with which node or the end of its chain, at which
position, and in which state up to marks and events. Going on from node to node gives the paths of a
walk. Which of them are tried depends on how the earlier ones end; here all are counted.

`step_same` says that this is all a node does: two ways to go on that do the same wherever a node
may go on make no difference to it, and a mark that is not set there is not set by it. Nothing is
asked of the graph.
-/

namespace ByteRegex

/-- What a node at a position may go on with, in which state up to marks and events. -/
inductive Matcher.GoesOn (m : Matcher) : Node → Nat → State → Option NodeId → Nat → State → Prop
  /-- Behind as many bytes as it may take. -/
  | bytes {accepted : ByteClass} {times : Repeat} {next : Option NodeId} {pos stop : Nat}
      {s t : State} (hlow : pos + times.min ≤ stop)
      (hhigh : stop ≤ pos + times.reach (runLength m.text accepted pos))
      (htables : s.SameTables t) : m.GoesOn (.bytes accepted times next) pos s next stop t
  /-- Behind a copy of what was captured. -/
  | copy {slot : Nat} {next : Option NodeId} {pos : Nat} {s : State} {captured : Span}
      (hcaptured : s.captures.get? slot = some captured) (hpos : pos ≤ m.text.size)
      (hcopy : sameBytes m.text captured.length captured.start pos = true) :
      m.GoesOn (.backreference slot next) pos s next (pos + captured.length) s
  /-- The first iteration of a group begins. -/
  | enter {slot : Nat} {times : Repeat} {entries : List NodeId} {tail entry : NodeId} {pos : Nat}
      {s t : State} (hentry : entry ∈ entries) (htables : (s.setStart slot pos).SameTables t) :
      m.GoesOn (.groupHead slot times entries tail) pos s (some entry) pos t
  /-- A group is left out. -/
  | skip {slot own : Nat} {times : Repeat} {entries : List NodeId} {head tail : NodeId}
      {next : Option NodeId} {pos : Nat} {s t : State} (hmin : times.min = 0)
      (htail : m.program.nodes[tail]? = some (.groupTail own head next))
      (htables : s.SameTables t) : m.GoesOn (.groupHead slot times entries tail) pos s next pos t
  /-- Another iteration of a group begins. -/
  | again {slot start : Nat} {entries : List NodeId} {head entry : NodeId} {node : Node}
      {next : Option NodeId} {pos : Nat} {s t : State} (hstart : s.starts[slot]? = some start)
      (hhead : m.program.nodes[head]? = some node)
      (hagain : againAt node start pos = some entries) (hentry : entry ∈ entries)
      (htables : ((s.setCapture slot (some ⟨start, pos⟩)).setStart slot pos).SameTables t) :
      m.GoesOn (.groupTail slot head next) pos s (some entry) pos t
  /-- An iteration of a group was the last. -/
  | leave {slot start : Nat} {head : NodeId} {next : Option NodeId} {pos : Nat} {s t : State}
      (hstart : s.starts[slot]? = some start)
      (htables : (s.setCapture slot (some ⟨start, pos⟩)).SameTables t) :
      m.GoesOn (.groupTail slot head next) pos s next pos t

namespace Matcher

variable {m : Matcher} {node : Node} {pos stop : Nat} {s t : State} {id : Option NodeId}

/-- A walk does not go back in the text. -/
theorem GoesOn.pos_le (h : m.GoesOn node pos s id stop t) : pos ≤ stop := by
  cases h with
  | bytes hlow _ _ => exact Nat.le_of_add_right_le hlow
  | copy => exact Nat.le_add_right _ _
  | enter | skip | again | leave => exact Nat.le_refl _

/-- A walk does not leave the text. -/
theorem GoesOn.le_size (h : m.GoesOn node pos s id stop t) (hpos : pos ≤ m.text.size) :
    stop ≤ m.text.size := by
  cases h with
  | @bytes accepted times _ _ _ _ _ _ hhigh _ =>
      have hreach := times.reach_le (runLength m.text accepted pos)
      have hrun := runLength_le m.text accepted pos
      omega
  | copy _ _ hcopy => exact le_size_of_sameBytes hcopy hpos
  | enter | skip | again | leave => exact hpos

/-- Behind bytes the chain goes on. -/
theorem GoesOn.of_bytes {accepted : ByteClass} {times : Repeat} {next : Option NodeId}
    (h : m.GoesOn (.bytes accepted times next) pos s id stop t) : id = next ∧ s.SameTables t := by
  cases h with
  | bytes _ _ htables => exact ⟨rfl, htables⟩

theorem GoesOn.of_backreference {slot : Nat} {next : Option NodeId}
    (h : m.GoesOn (.backreference slot next) pos s id stop t) : id = next ∧ s.SameTables t := by
  cases h with
  | copy => exact ⟨rfl, .refl s⟩

/-- Only a loop is entered again, and only behind an iteration that took a byte. -/
theorem againAt_eq_some {slot start : Nat} {times : Repeat} {entries again : List NodeId}
    {tail : NodeId} :
    againAt (.groupHead slot times entries tail) start pos = some again ↔
      times.isUnbounded = true ∧ start < pos ∧ entries = again := by
  rw [againAt, Option.ite_none_right_eq_some, Option.some.injEq, and_assoc]

end Matcher

/-- Both evaluations are one and the same, and `Q` holds of the mark that it leaves. -/
def Outcome.SameWith (Q : Bool → Prop) (o o' : Outcome) : Prop :=
  o' = o ∧ Q o.state.deep

namespace Outcome.SameWith

variable {Q : Bool → Prop} {o o' : Outcome} {s : State}

theorem failed (hs : Q s.deep) : (Outcome.failed s).SameWith Q (.failed s) := ⟨rfl, hs⟩

theorem faulted (fault : Fault) (hs : Q s.deep) :
    (Outcome.faulted fault s).SameWith Q (.faulted fault s) := ⟨rfl, hs⟩

/-- What is tried after a failure begins with the tables of before. -/
theorem orElse {f g : State → Outcome} (h : o.SameWith Q o') (hrestores : o.Restores s)
    (hnext : ∀ t, s.SameTables t → Q t.deep → (f t).SameWith Q (g t)) :
    (o.orElse f).SameWith Q (o'.orElse g) := by
  obtain ⟨rfl, hmark⟩ := h
  cases o' with
  | matched stop t => exact ⟨rfl, hmark⟩
  | failed t => exact hnext t (hrestores.tables t rfl) hmark
  | faulted fault t => exact ⟨rfl, hmark⟩

theorem onFailure {undo : State → State} (h : o.SameWith Q o')
    (hundo : ∀ t : State, (undo t).deep = t.deep) :
    (o.onFailure undo).SameWith Q (o'.onFailure undo) := by
  obtain ⟨rfl, hmark⟩ := h
  cases o' with
  | matched stop t => exact ⟨rfl, hmark⟩
  | failed t => exact ⟨rfl, (hundo t).symm ▸ hmark⟩
  | faulted fault t => exact ⟨rfl, hmark⟩

end Outcome.SameWith

theorem State.note_mark {Q : Bool → Prop} {s : State} (hs : Q s.deep) (limit : Level) (e : Event) :
    Q (s.note limit e).deep :=
  (s.note_deep limit e).symm ▸ hs

/-! ## Nodes -/

section

variable {m : Matcher} {Q : Bool → Prop} {go go' : Continue} (hrestores : go.Restores)
  {next : Option NodeId} {pos : Nat} {s : State} (hs : Q s.deep)
include hrestores hs

theorem descend_same {low extra : Nat}
    (hgo : ∀ stop t, low ≤ stop → stop ≤ low + extra → s.SameTables t → Q t.deep →
      (go next stop t).SameWith Q (go' next stop t)) :
    (descend go next low extra s).SameWith Q (descend go' next low extra s) := by
  induction extra generalizing s with
  | zero => exact hgo low s (Nat.le_refl low) (Nat.le_refl low) (.refl s) hs
  | succ extra ih =>
      have hlongest := hgo (low + (extra + 1)) s (by omega) (Nat.le_refl _) (.refl s) hs
      refine hlongest.orElse (hrestores next _ s) fun t hst ht => ih ht fun stop u hlow hstop hu => ?_
      exact hgo stop u hlow (by omega) (hst.trans hu)

theorem matchBytes_same {accepted : ByteClass} {times : Repeat}
    (hgo : ∀ stop t, m.GoesOn (.bytes accepted times next) pos s next stop t → Q t.deep →
      (go next stop t).SameWith Q (go' next stop t)) :
    (m.matchBytes go accepted times next pos s).SameWith Q
      (m.matchBytes go' accepted times next pos s) := by
  have hgo : ∀ stop t, pos + times.min ≤ stop →
      stop ≤ pos + times.reach (runLength m.text accepted pos) → s.SameTables t → Q t.deep →
        (go next stop t).SameWith Q (go' next stop t) :=
    fun stop t hlow hhigh ht => hgo stop t (.bytes hlow hhigh ht)
  have hrun := runLength_eq m.text accepted pos
  cases times with
  | once =>
      rw [Matcher.matchBytes_once, Matcher.matchBytes_once]
      split
      · next hbyte =>
        rw [if_pos hbyte] at hrun
        rw [hrun, Repeat.reach_succ] at hgo
        exact hgo (pos + 1) s (Nat.le_refl _) (Nat.le_refl _) (.refl s) hs
      · exact .failed hs
  | optional =>
      have hhere : ∀ t, s.SameTables t → Q t.deep → (go next pos t).SameWith Q (go' next pos t) :=
        fun t => hgo pos t (Nat.le_refl pos) (Nat.le_add_right pos _)
      rw [Matcher.matchBytes_optional, Matcher.matchBytes_optional, Matcher.matchBytes_once,
        Matcher.matchBytes_once]
      split
      · next hbyte =>
        rw [if_pos hbyte] at hrun
        rw [hrun, Repeat.reach_succ] at hgo
        have hone := hgo (pos + 1) s (Nat.le_succ pos) (Nat.le_refl _) (.refl s) hs
        exact hone.orElse (hrestores next _ s) hhere
      · exact hhere s (.refl s) hs
  | star | plus =>
      unfold Matcher.matchBytes
      dsimp only
      split
      · next hpos =>
        have hstop := runEnd_eq accepted m.text (m.text.size - pos) pos (by omega)
        have hnote := State.note_mark hs m.verbosity
          (.run (runEnd accepted m.text (m.text.size - pos) pos - pos) pos)
        split
        · refine descend_same hrestores hnote fun stop t hlow hhigh ht => ?_
          refine hgo stop t hlow ?_ ((s.sameTables_note _ _).trans ht)
          change stop ≤ pos + runLength m.text accepted pos
          omega
        · exact .failed hnote
      · exact .faulted _ hs

omit hrestores in
theorem matchReference_same {slot : Nat}
    (hgo : ∀ stop t, m.GoesOn (.backreference slot next) pos s next stop t → Q t.deep →
      (go next stop t).SameWith Q (go' next stop t)) :
    (m.matchReference go slot next pos s).SameWith Q (m.matchReference go' slot next pos s) := by
  unfold Matcher.matchReference
  cases hcaptured : s.captures.get? slot with
  | none => exact .failed (State.note_mark hs _ _)
  | some captured =>
      dsimp only
      split
      · next hpos =>
        split
        · next hcopy => exact hgo _ s (.copy hcaptured hpos hcopy) hs
        · exact .failed hs
      · exact .faulted _ hs

theorem tryAlternatives_same (slot i : Nat) {entries : List NodeId}
    (hgo : ∀ entry ∈ entries, ∀ t, s.SameTables t → Q t.deep →
      (go (some entry) pos t).SameWith Q (go' (some entry) pos t)) :
    (m.tryAlternatives go slot pos i entries s).SameWith Q
      (m.tryAlternatives go' slot pos i entries s) := by
  induction entries generalizing i s with
  | nil => exact .failed hs
  | cons entry others ih =>
      rw [List.forall_mem_cons] at hgo
      have hnote := s.sameTables_note m.verbosity (.alternative slot i pos)
      have hfirst := hgo.1 _ hnote (State.note_mark hs _ _)
      refine hfirst.orElse (hrestores _ _ _) fun t ht hmark => ih hmark (i + 1) ?_
      intro other hother u hu
      exact hgo.2 other hother u (hnote.trans (ht.trans hu))

theorem enterGroup_same {slot : Nat} {entries : List NodeId}
    (hgo : ∀ entry ∈ entries, ∀ t, (s.setStart slot pos).SameTables t → Q t.deep →
      (go (some entry) pos t).SameWith Q (go' (some entry) pos t)) :
    (m.enterGroup go slot entries pos s).SameWith Q (m.enterGroup go' slot entries pos s) := by
  unfold Matcher.enterGroup
  split
  · exact .faulted _ hs
  · have hset : Q (s.setStart slot pos).deep := hs
    exact (tryAlternatives_same hrestores hset slot 0 hgo).onFailure fun _ => rfl

theorem matchHead_same {slot : Nat} {times : Repeat} {entries : List NodeId} {tail : NodeId}
    (hgo : ∀ id stop t, m.GoesOn (.groupHead slot times entries tail) pos s id stop t → Q t.deep →
      (go id stop t).SameWith Q (go' id stop t)) :
    (m.matchHead go slot times entries tail pos s).SameWith Q
      (m.matchHead go' slot times entries tail pos s) := by
  have henter : (m.enterGroup go slot entries pos s).SameWith Q
      (m.enterGroup go' slot entries pos s) :=
    enterGroup_same hrestores hs fun entry hentry t ht => hgo _ pos t (.enter hentry ht)
  refine henter.orElse (enterGroup_restores hrestores slot entries pos s) fun t ht hmark => ?_
  have hnote := t.sameTables_note m.verbosity (.skipped slot pos)
  have hmark' := State.note_mark hmark m.verbosity (.skipped slot pos)
  split
  · exact .failed hmark
  · next hmin =>
    dsimp only
    cases htail : m.program.nodes[tail]? with
    | none => exact .faulted _ hmark'
    | some node =>
        cases node with
        | groupTail own head next =>
            have hskip : m.GoesOn (.groupHead slot times entries tail) pos s next pos _ :=
              .skip (Nat.eq_zero_of_not_pos hmin) htail (ht.trans hnote)
            exact hgo next pos _ hskip hmark'
        | _ => exact .failed hmark'

theorem matchTail_same {slot : Nat} {head : NodeId}
    (hgo : ∀ id stop t, m.GoesOn (.groupTail slot head next) pos s id stop t → Q t.deep →
      (go id stop t).SameWith Q (go' id stop t)) :
    (m.matchTail go slot head next pos s).SameWith Q (m.matchTail go' slot head next pos s) := by
  unfold Matcher.matchTail
  cases hstart : s.starts[slot]? with
  | none => exact .faulted _ hs
  | some start =>
      dsimp only
      split
      · cases s.captures.slots[slot]? with
        | none => exact .faulted _ hs
        | some previous =>
            dsimp only
            have hset : Q (s.setCapture slot (some ⟨start, pos⟩)).deep := hs
            cases hhead : m.program.nodes[head]? with
            | none => exact .faulted _ hset
            | some node =>
                dsimp only
                refine Outcome.SameWith.onFailure ?_ fun _ => rfl
                have hleave : ∀ t, (s.setCapture slot (some ⟨start, pos⟩)).SameTables t →
                    Q t.deep → (go next pos t).SameWith Q (go' next pos t) :=
                  fun t ht => hgo next pos t (.leave hstart ht)
                cases hagain : Matcher.againAt node start pos with
                | none => exact hleave _ (.refl _) hset
                | some entries =>
                    refine Outcome.SameWith.orElse ?_
                      (enterGroup_restores hrestores slot entries pos _) hleave
                    exact enterGroup_same hrestores hset
                      fun entry hentry t ht => hgo _ pos t (.again hstart hhead hagain hentry ht)
      · exact .faulted _ hs

/-- What a node does depends only on what is done where it may go on. -/
theorem step_same {here : NodeId} {node : Node} (hnode : m.program.nodes[here]? = some node)
    (hgo : ∀ id stop t, m.GoesOn node pos s id stop t → Q t.deep →
      (go id stop t).SameWith Q (go' id stop t)) :
    (m.step go here pos s).SameWith Q (m.step go' here pos s) := by
  unfold Matcher.step
  rw [hnode]
  cases node with
  | bytes accepted times next => exact matchBytes_same hrestores hs fun _ _ => hgo _ _ _
  | backreference slot next => exact matchReference_same hs fun _ _ => hgo _ _ _
  | groupHead slot times entries tail => exact matchHead_same hrestores hs hgo
  | groupTail slot head next => exact matchTail_same hrestores hs hgo
  | endAnchor =>
      dsimp only
      split
      · exact ⟨rfl, hs⟩
      · exact .failed hs

omit hs in
/-- Two ways to go on that do the same where a node may go on make no difference to it. -/
theorem step_congr {here : NodeId} {node : Node} (hnode : m.program.nodes[here]? = some node)
    (hgo : ∀ id stop t, m.GoesOn node pos s id stop t → go' id stop t = go id stop t) :
    m.step go' here pos s = m.step go here pos s :=
  (step_same (Q := fun _ => True) hrestores trivial hnode
    fun id stop t ht _ => ⟨hgo id stop t ht, trivial⟩).1

end

end ByteRegex
