/-
# Canonical input refines the queue of lines

The ring holds the bytes of the released lines, one behind the other, and then the line being
edited; ends of file are only a flag. So the code keeps neither where a released line ends nor where
an end of file stands among the lines. It answers all reads as it should as long as that does not
matter: every byte finds room, at most one end of file is pending, a read that finds one pending
would get it next, and a read does not ask for more than the rest of the next line unless no other
line is released.
-/
import XosKernel.Tty.Ldisc

namespace XosKernel.Ldisc

open List Option Nat

def Item.bytes : Item → List UInt8
  | .line l => l
  | .eof => []

def released (q : List Item) : List UInt8 := q.flatMap Item.bytes

lemma released_append (q r : List Item) : released (q ++ r) = released q ++ released r :=
    flatMap_append

lemma released_cons (y : Item) (q : List Item) : released (y :: q) = y.bytes ++ released q :=
    flatMap_cons

variable {q : List Item} {l : List UInt8} {len : ℕ} {s : Sys}

lemma released_eq_nil (h : ∀ y ∈ q, y = .eof) : released q = [] :=
  flatMap_eq_nil_iff.2 fun y hy => by rw [h y hy]; rfl

/-- The ring holds the released bytes and the line, the released bytes starting at `i`. -/
structure Refines (i : ℕ) (p : Pty) (x : Tty) : Prop where
  tail : p.canonTail = i % ptyBufSize
  commit : p.canonCommit = (i + (released x.queue).length) % ptyBufSize
  head : p.canonHead = (i + (released x.queue).length + x.line.length) % ptyBufSize
  room : (released x.queue).length + x.line.length < ptyBufSize
  kept : Kept ptyBufSize p.canonBuf i (released x.queue ++ x.line)
  literal : p.lnextPending = x.literal
  eof : p.eofPending = true ↔ .eof ∈ x.queue
  one : x.queue.count .eof ≤ 1
  lines : ∀ l, .line l ∈ x.queue → l ≠ []

lemma refines_create : Refines 0 .create .create where
  tail := rfl
  commit := rfl
  head := rfl
  room := by decide
  kept := Kept.nil
  literal := rfl
  eof := iff_of_false Bool.false_ne_true not_mem_nil
  one := zero_le _
  lines _ h := absurd h not_mem_nil

lemma ptyRingAvail_eq {i n : ℕ} (hn : n < ptyBufSize) :
    ptyRingAvail ((i + n) % ptyBufSize) (i % ptyBufSize) = n := by
  unfold ptyRingAvail ptyBufSize at *
  omega

lemma prevIndex_eq (i : ℕ) : prevIndex ((i + 1) % ptyBufSize) = i % ptyBufSize := by
  unfold prevIndex ptyBufSize
  omega

section

variable {i : ℕ} {p : Pty} {x : Tty}

section

variable (h : Refines i p x)
include h

lemma Refines.avail : ldiscCanonAvail p = (released x.queue).length := by
  rw [ldiscCanonAvail, h.commit, h.tail]
  exact ptyRingAvail_eq (lt_of_le_of_lt (le_add_right _ _) h.room)

lemma Refines.lineAvail : ptyRingAvail p.canonHead p.canonCommit = x.line.length := by
  rw [h.head, h.commit]
  exact ptyRingAvail_eq (lt_of_le_of_lt (le_add_left _ _) h.room)

lemma Refines.space :
    ptyRingSpace p.canonHead p.canonTail =
    ptyBufSize - 1 - ((released x.queue).length + x.line.length) := by
  rw [ptyRingSpace, h.head, h.tail, add_assoc, ptyRingAvail_eq h.room]

lemma Refines.head_eq_commit : p.canonHead = p.canonCommit ↔ x.line = [] := by
  constructor
  · intro heq
    have := h.lineAvail
    rw [heq] at this
    have hself : ptyRingAvail p.canonCommit p.canonCommit = 0 := by
      unfold ptyRingAvail
      rw [Nat.add_sub_cancel_left]
      decide
    exact length_eq_zero_iff.1 (this.symm.trans hself)
  · intro hline
    rw [h.head, h.commit, hline, length_nil, add_zero]

lemma Refines.cut (hl : l <+: x.line) :
    Refines i { p with canonHead := (i + (released x.queue).length + l.length) % ptyBufSize }
    { x with line := l } where
  __ := h
  head := rfl
  room := by
    have := h.room
    have := hl.length_le
    change (released x.queue).length + l.length < ptyBufSize
    omega
  kept := h.kept.of_prefix ((prefix_append_right_inj _).2 hl)

omit h in
lemma eraseWhile_eq (stay : UInt8 → Bool) {buf : ℕ → UInt8} : ∀ (l : List UInt8) (j : ℕ),
    Kept ptyBufSize buf j l → eraseWhile stay buf l.length ((j + l.length) % ptyBufSize) =
      (j + (l.reverse.dropWhile stay).length) % ptyBufSize := by
  intro l
  induction l using List.reverseRecOn with
  | nil => exact fun _ _ => rfl
  | append_singleton l a ih =>
    intro j hk
    obtain ⟨hl, ha⟩ := Kept.append_iff.1 hk
    have hlast : buf ((j + l.length) % ptyBufSize) = a := Kept.singleton_iff.1 ha
    rw [length_append, length_singleton, eraseWhile, ← add_assoc, prevIndex_eq, hlast,
      reverse_append, reverse_singleton, singleton_append]
    by_cases hs : stay a = true
    · rw [if_pos hs, ih j hl, dropWhile_cons_of_pos hs]
    · rw [if_neg hs, dropWhile_cons_of_neg hs, length_cons, length_reverse, add_assoc]

omit h in
lemma reverse_dropWhile_prefix (stay : UInt8 → Bool) (l : List UInt8) :
    (l.reverse.dropWhile stay).reverse <+: l := by
  have := reverse_prefix.2 (dropWhile_suffix (l := l.reverse) stay)
  rwa [reverse_reverse] at this

lemma Refines.werase :
    Refines i { p with canonHead := werase p } { x with line := eraseWord x.line } := by
  have hline : Kept ptyBufSize p.canonBuf (i + (released x.queue).length) x.line :=
    (Kept.append_iff.1 h.kept).2
  have hblanks := reverse_dropWhile_prefix wordSpace x.line
  have hword : eraseWord x.line <+: x.line := by
    refine List.IsPrefix.trans ?_ hblanks
    have := reverse_dropWhile_prefix (fun b => !wordSpace b)
      (x.line.reverse.dropWhile wordSpace).reverse
    rwa [reverse_reverse] at this
  have hfirst := eraseWhile_eq wordSpace x.line (i + (released x.queue).length) hline
  have hsecond := eraseWhile_eq (fun b => !wordSpace b) _ _ (hline.of_prefix hblanks)
  rw [reverse_reverse, length_reverse] at hsecond
  have hroom : (x.line.reverse.dropWhile wordSpace).length < ptyBufSize := by
    have := hblanks.length_le
    rw [length_reverse] at this
    have := h.room
    omega
  have hhead : Ldisc.werase p = (i + (released x.queue).length + (eraseWord x.line).length) %
    ptyBufSize := by
    unfold Ldisc.werase
    rw [h.lineAvail, h.head]
    dsimp only
    rw [hfirst, h.commit, ptyRingAvail_eq hroom, hsecond, eraseWord, length_reverse]
  rw [hhead]
  exact h.cut hword

lemma Refines.release (hline : x.line ≠ []) :
    Refines i { p with canonCommit := p.canonHead } { x with line := [], queue :=
    x.queue ++ [.line x.line] } := by
  have hrel : released (x.queue ++ [.line x.line]) = released x.queue ++ x.line := by
    rw [released_append, released_cons]
    exact congrArg _ (append_nil _)
  have hhead : p.canonHead = (i + (released (x.queue ++ [.line x.line])).length) % ptyBufSize := by
    rw [hrel, length_append, ← add_assoc]
    exact h.head
  refine ⟨h.tail, hhead, hhead, ?_, ?_, h.literal, ?_, ?_, fun l hl => ?_⟩
  · change (released (x.queue ++ [.line x.line])).length + 0 < ptyBufSize
    rw [hrel, length_append]
    exact h.room
  · change Kept _ _ _ (released (x.queue ++ [.line x.line]) ++ [])
    rw [hrel, append_nil]
    exact h.kept
  · simp only [mem_append, mem_singleton, reduceCtorEq, or_false]
    exact h.eof
  · simp only [count_append]
    exact h.one
  · rcases mem_append.1 hl with hl | hl
    · exact h.lines l hl
    · rw [Item.line.inj (mem_singleton.1 hl)]
      exact hline

lemma Refines.push {b : UInt8} (hspace : ptyRingSpace p.canonHead p.canonTail ≠ 0) :
    Refines i
      { p with
        canonBuf := Function.update p.canonBuf p.canonHead b
        canonHead := (p.canonHead + 1) % ptyBufSize } { x with line := x.line ++ [b] } := by
  rw [h.space] at hspace
  have hroom : (released x.queue).length + x.line.length + 1 < ptyBufSize := by omega
  have hlen : (released x.queue ++ x.line).length = (released x.queue).length + x.line.length :=
    length_append
  refine { h with head := ?_, room := ?_, kept := ?_ }
  · change (p.canonHead + 1) % ptyBufSize = (i + _ + (x.line ++ [b]).length) % ptyBufSize
    rw [h.head, mod_add_mod, length_append, length_singleton, add_assoc _ x.line.length]
  · change _ + (x.line ++ [b]).length < ptyBufSize
    rw [length_append, length_singleton]
    exact hroom
  · have := h.kept.push (a := b) (by rw [hlen]; omega)
    rwa [hlen, ← add_assoc, ← h.head, append_assoc] at this

lemma Refines.putByte {b : UInt8} (hspace : ptyRingSpace p.canonHead p.canonTail ≠ 0) :
    Refines i (putByte p b) (x.apply (.char b)) := by
  have hpush := h.push (b := b) hspace
  unfold Ldisc.putByte Tty.apply
  rw [if_neg hspace]
  dsimp only
  split
  · exact hpush.release (append_ne_nil_of_right_ne_nil _ (cons_ne_nil _ _))
  · exact hpush

lemma Refines.eofKey (hone : x.line = [] → .eof ∉ x.queue) :
    Refines i (applyKey p .eof) (x.apply .eof) := by
  unfold applyKey Tty.apply
  by_cases hline : x.line = []
  · have hrel : released (x.queue ++ [.eof]) = released x.queue := by
      rw [released_append]
      exact append_nil _
    simp only [if_pos (h.head_eq_commit.2 hline), if_pos hline]
    refine ⟨h.tail, hrel.symm ▸ h.commit, hrel.symm ▸ h.head, hrel.symm ▸ h.room,
      hrel.symm ▸ h.kept, h.literal, ?_, ?_, fun l hl => ?_⟩
    · exact iff_of_true rfl (mem_append_right _ mem_cons_self)
    · simp only [count_append, count_eq_zero.2 (hone hline)]
      decide
    · rcases mem_append.1 hl with hl | hl
      · exact h.lines l hl
      · exact nomatch mem_singleton.1 hl
  · simp only [if_neg (fun heq => hline (h.head_eq_commit.1 heq)), if_neg hline]
    exact h.release hline

end

/-- What a key needs: room for a byte, and no other end of file for an end of file. -/
def Key.Free (p : Pty) (x : Tty) : Key → Prop
  | .char _ => ptyRingSpace p.canonHead p.canonTail ≠ 0
  | .eof => x.line = [] → .eof ∉ x.queue
  | _ => True

lemma Refines.apply (h : Refines i p x) {k : Key} (hk : k.Free p x) :
    Refines i (applyKey p k) (x.apply k) := by
  cases k with
  | eof => exact h.eofKey hk
  | erase =>
    unfold applyKey Tty.apply
    by_cases hline : x.line = []
    · simp only [if_neg (not_not_intro (h.head_eq_commit.2 hline)), hline, dropLast_nil]
      exact hline ▸ h
    · simp only [if_pos (fun heq => hline (h.head_eq_commit.1 heq))]
      have hlen : x.line.length = x.line.dropLast.length + 1 := by
        rw [length_dropLast, Nat.sub_add_cancel (length_pos_iff.2 hline)]
      rw [h.head, hlen, ← Nat.add_assoc, prevIndex_eq]
      exact h.cut <| dropLast_prefix _
  | kill =>
    have := h.cut <| nil_prefix (l := x.line)
    rwa [length_nil, add_zero, ← h.commit] at this
  | werase => exact h.werase
  | reprint => exact h
  | lnext => exact { h with literal := rfl }
  | char b => exact h.putByte hk

lemma Refines.input (h : Refines i p x) (t : Termios) (b : UInt8)
    (hk : (t.key x.literal (t.mapped x.literal b)).Free p x) : Refines i (ldiscInput t p b)
    (x.type t b) := by
  unfold ldiscInput Tty.type
  rw [h.literal]
  have h0 : Refines i { p with lnextPending := false } { x with literal := false } :=
    { h with literal := rfl }
  refine h0.apply ?_
  revert hk
  cases t.key x.literal (t.mapped x.literal b) <;> exact id

/-! ## Reads -/

/-- The first entry is a line, and the read asks for no more than what is left of it, or no other
line is released; the length is one that an `int` can hold. -/
def FirstLine (x : Tty) (len : ℕ) : Prop :=
  match x.queue with
  | .line l :: q => len < 2 ^ 31 ∧ (len ≤ l.length ∨ ∀ y ∈ q, y = .eof)
  | _ => False

instance (x : Tty) (len : ℕ) : Decidable (FirstLine x len) := by
  unfold FirstLine
  split <;> infer_instance

lemma intOf_eq (h : len < 2 ^ 31) : intOf len = len := by
  exact Int.bmod_eq_of_le (by omega) (by omega)

lemma released_rest {n : ℕ} (hn : n = len ∧ len ≤ l.length ∨ n = l.length ∧ l.length < len) :
    released (if len < l.length then .line (l.drop len) :: q else q) =
    (l ++ released q).drop n := by
  rcases hn with ⟨rfl, hle⟩ | ⟨rfl, hlt⟩
  · by_cases hlt : n < l.length
    · rw [if_pos hlt, released_cons, drop_append_of_le_length hle]
      rfl
    · obtain rfl : n = l.length := le_antisymm hle (not_lt.1 hlt)
      rw [if_neg hlt, drop_left]
  · rw [if_neg (by omega), drop_left]

lemma Refines.readLine (h : Refines i p x) (hfirst : FirstLine x len) :
    ∃ a p' l x' j, ptyRingRead p len = (a, p') ∧ x.read len = some (l, x') ∧ Agree a (some l) ∧
    Refines j p' x' := by
  unfold FirstLine at hfirst
  rcases hq : x.queue with _ | ⟨_ | _, q⟩
  all_goals rw [hq] at hfirst
  · exact hfirst.elim
  · rename_i l
    obtain ⟨hlen, hcase⟩ := hfirst
    have hrel : released x.queue = l ++ released q := by
      rw [hq, released_cons]
      rfl
    -- the number of bytes read, and that they are the first bytes of the line
    obtain ⟨n, hnum, hn⟩ : ∃ n : ℕ, (if intOf len < ldiscCanonAvail p then intOf len else
      ldiscCanonAvail p : ℤ) = n ∧
        (n = len ∧ len ≤ l.length ∨ n = l.length ∧ l.length < len) := by
      rw [intOf_eq hlen, h.avail, hrel, length_append]
      rcases le_or_gt len l.length with hle | hgt
      · refine ⟨len, ?_, .inl ⟨rfl, hle⟩⟩
        split_ifs with hlt
        · rfl
        · push_cast at hlt ⊢
          omega
      · have hnil := released_eq_nil (hcase.resolve_left (not_le.2 hgt))
        refine ⟨l.length, ?_, .inr ⟨rfl, hgt⟩⟩
        rw [hnil, length_nil, add_zero, if_neg (by omega)]
    have hnl : n ≤ l.length := by omega
    have hle : n ≤ (released x.queue).length := by
      rw [hrel, length_append]
      omega
    have htake : l.take len = l.take n := by
      rcases hn with ⟨rfl, _⟩ | ⟨rfl, hgt⟩
      · rfl
      · rw [take_length, take_of_length_le hgt.le]
    have hbytes : ringTake ptyBufSize p.canonBuf n p.canonTail = l.take len := by
      have hk := (Kept.append_iff.1 h.kept).1
      rw [h.tail, hk.ringTake_eq hle, hrel, take_append_of_le_length hnl, htake]
    have hret : (n : ℤ) = ((l.take len).length : ℤ) := by
      rw [htake, length_take, min_eq_left hnl]
    -- what the read leaves of the queue
    obtain ⟨q', hq'⟩ : ∃ q', q' = if len < l.length then Item.line (l.drop len) :: q else q :=
      ⟨_, rfl⟩
    have hrest : released q' = (released x.queue).drop n := by
      rw [hrel, hq']
      exact released_rest hn
    refine ⟨_, _, l.take len, { x with queue := q' }, i + n, rfl, ?_,
      ⟨?_, ?_⟩, ?_, ?_, ?_, ?_, ?_, h.literal, ?_, ?_, ?_⟩
    · rw [Tty.read, hq, hq']
    · rw [hnum, Int.toNat_natCast, hbytes]
    · rw [hnum, Int.toNat_natCast, hbytes, hret]
    · change (p.canonTail + _) % ptyBufSize = _
      rw [hnum, Int.toNat_natCast, h.tail, mod_add_mod]
    · change p.canonCommit = (i + n + (released q').length) % ptyBufSize
      rw [hrest, length_drop, Nat.add_assoc, Nat.add_sub_cancel' hle]
      exact h.commit
    · change p.canonHead = (i + n + (released q').length + x.line.length) % ptyBufSize
      rw [hrest, length_drop, Nat.add_assoc i n, Nat.add_sub_cancel' hle]
      exact h.head
    · change (released q').length + x.line.length < ptyBufSize
      rw [hrest, length_drop]
      have := h.room
      omega
    · change Kept _ _ _ (released q' ++ x.line)
      rw [hrest, ← drop_append_of_le_length hle]
      exact h.kept.drop (by rw [length_append]; omega)
    · have heof : .eof ∈ q' ↔ .eof ∈ x.queue := by
        rw [hq, hq']
        split_ifs <;> simp
      exact h.eof.trans heof.symm
    · have hcount : q'.count .eof = x.queue.count .eof := by
        rw [hq, hq']
        split_ifs <;> simp
      exact hcount.trans_le h.one
    · intro m hm
      have hold : .line m ∈ q → m ≠ [] := fun hm => h.lines m (hq ▸ mem_cons_of_mem _ hm)
      rw [hq'] at hm
      split at hm
      next hlt =>
        rcases mem_cons.1 hm with hm | hm
        · rw [Item.line.inj hm]
          exact fun hnil => absurd (drop_eq_nil_iff.1 hnil) (not_le.2 hlt)
        · exact hold hm
      · exact hold hm
  · exact hfirst.elim

lemma Refines.readEof (h : Refines i p x) (hq : x.queue = .eof :: q) (len : ℕ) :
    ∃ l x', x.read len = some (l, x') ∧ Agree (takeEof p).1 (some l) ∧
    Refines i (takeEof p).2 x' := by
  have hrel : released x.queue = released q := by
    rw [hq, released_cons]
    rfl
  have hnot : .eof ∉ q := by
    have := h.one
    rw [hq, count_cons_self] at this
    exact count_eq_zero.1 (by omega)
  refine ⟨[], { x with queue := q }, by rw [Tty.read, hq], ⟨rfl, rfl⟩, h.tail, hrel ▸ h.commit,
    hrel ▸ h.head, hrel ▸ h.room, hrel ▸ h.kept, h.literal, ?_, ?_, fun l hl => ?_⟩
  · exact iff_of_false Bool.false_ne_true hnot
  · exact (count_eq_zero.2 hnot).trans_le (zero_le _)
  · exact h.lines l (hq ▸ mem_cons_of_mem _ hl)

lemma Refines.queue_of_released (h : Refines i p x) (hrel : released x.queue = []) : x.queue = [] ∨
    x.queue = [.eof] := by
  have hall : ∀ y ∈ x.queue, y = .eof := by
    intro y hy
    cases y with
    | eof => rfl
    | line l => exact absurd (flatMap_eq_nil_iff.1 hrel _ hy) (h.lines l hy)
  have hone := h.one
  rw [eq_replicate_of_mem hall, count_replicate_self] at hone
  rw [eq_replicate_of_mem hall]
  interval_cases x.queue.length
  · exact .inl rfl
  · exact .inr rfl

end

/-! ## Runs -/

/-- The condition on a step: every byte finds room, and no end of file is typed while another one is
pending; a read that finds an end of file pending would get it next, and else asks for no more than
`FirstLine` says. -/
def Orderly (t : Termios) (s : Sys) : Act → Prop
  | .input b => (t.key s.tty.literal (t.mapped s.tty.literal b)).Free s.pty s.tty
  | .read len _ =>
    if .eof ∈ s.tty.queue then s.tty.queue.head? = some .eof else s.tty.queue ≠ [] →
      FirstLine s.tty len
  | .wake => ∀ len ∈ s.waiting, released s.tty.queue ≠ [] → FirstLine s.tty len
  | .interrupt => True

instance (p : Pty) (x : Tty) (k : Key) : Decidable (k.Free p x) := by
  cases k <;> unfold Key.Free <;> infer_instance

instance (t : Termios) (s : Sys) (a : Act) : Decidable (Orderly t s a) := by
  cases a <;> unfold Orderly <;> infer_instance

structure Inv (s : Sys) : Prop where
  refines : ∃ i, Refines i s.pty s.tty
  agree : List.Forall₂ Agree s.answers s.wanted

lemma Inv.delivered (h : Inv s) : Delivered s := by
  obtain ⟨i, hr⟩ := h.refines
  refine ⟨h.agree, fun havail heof => ?_⟩
  rw [hr.avail] at havail
  refine (hr.queue_of_released (length_eq_zero_iff.1 havail)).resolve_right fun hq => ?_
  have := hr.eof.2 (hq ▸ mem_cons_self)
  rw [heof] at this
  exact nomatch this

lemma Inv.answer (h : Inv s) {i : ℕ} {r : Answer × Pty} {x' : Tty}
    (hread : s.tty.read len = some (l, x')) (hagree : Agree r.1 (some l)) (hr : Refines i r.2 x') :
    Inv (answer s len r) := by
  refine ⟨⟨i, ?_⟩, ?_⟩
  · change Refines i r.2 (((s.tty.read len).map Prod.snd).getD s.tty)
    rw [hread]
    exact hr
  · change List.Forall₂ Agree (s.answers ++ [r.1]) (s.wanted ++ [(s.tty.read len).map Prod.fst])
    rw [hread]
    exact rel_append h.agree (List.Forall₂.cons hagree .nil)

/-- A turn of the loop of a read. -/
lemma Inv.slaveLoop (h : Inv s) (len : ℕ) (hfirst : released s.tty.queue ≠ [] → FirstLine s.tty len)
    : ∀ r, slaveLoop s.pty len = some r → Inv (Ldisc.answer s len r) := by
  obtain ⟨i, hr⟩ := h.refines
  intro r hs
  unfold Ldisc.slaveLoop at hs
  rw [hr.avail] at hs
  split at hs
  next hpos =>
    obtain ⟨a, p', l, x', j, hread, hwant, hagree, hr'⟩ :=
      hr.readLine (hfirst (length_pos_iff.1 hpos))
    rw [hread] at hs
    obtain rfl := some.inj hs
    exact h.answer hwant hagree hr'
  next hpos =>
    obtain ⟨heof, rfl⟩ := of_guard hs
    have hnil : released s.tty.queue = [] := length_eq_zero_iff.1 (Nat.eq_zero_of_not_pos hpos)
    have hq : s.tty.queue = [.eof] := (hr.queue_of_released hnil).resolve_left fun hq => by
      have := hr.eof.1 heof
      rw [hq] at this
      exact absurd this not_mem_nil
    obtain ⟨l, x', hwant, hagree, hr'⟩ := hr.readEof hq len
    exact h.answer hwant hagree hr'

lemma inv_step (t : Termios) (s : Sys) (a : Act) (s' : Sys) (h : Inv s) (hC : Orderly t s a)
    (hs : step t s a = some s') : Inv s' := by
  obtain ⟨i, hr⟩ := h.refines
  cases a with
  | input b => exact some.inj hs ▸ ⟨⟨i, hr.input t b hC⟩, h.agree⟩
  | read len nonblock =>
    obtain ⟨_, hs⟩ := ite_none_right_eq_some.1 hs
    -- the entry of `pty_slave_read` looks for an end of file first
    by_cases heof : .eof ∈ s.tty.queue
    · simp only [Orderly, if_pos heof] at hC
      obtain ⟨q, hq⟩ := List.head?_eq_some_iff.1 hC
      obtain ⟨l, x', hwant, hagree, hr'⟩ := hr.readEof hq len
      rw [slaveRead, if_pos (hr.eof.2 heof)] at hs
      exact some.inj hs ▸ h.answer hwant hagree hr'
    · simp only [Orderly, if_neg heof] at hC
      rw [slaveRead, if_neg (fun hp => heof (hr.eof.1 hp))] at hs
      have hloop := h.slaveLoop len fun hrel => hC fun hq => hrel (by rw [hq]; rfl)
      split at hs
      next r hl => exact some.inj hs ▸ hloop r hl
      · obtain rfl := some.inj hs
        cases nonblock
        · exact ⟨h.refines, h.agree⟩
        · exact h
  | wake =>
    obtain ⟨len, hw, rfl⟩ := map_eq_some_iff.1 hs
    have hloop := h.slaveLoop len (hC len hw)
    rcases hl : slaveLoop s.pty len with _ | r
    · exact h
    · exact hloop r hl
  | interrupt => exact some.inj hs ▸ ⟨h.refines, h.agree⟩

/-- `ab`, an erased byte, a newline, then a line that ends with the end-of-file character, read in
three pieces; then an end of file. -/
def typeAndRead : List Act :=
  [.input 97, .input 98, .input 0x7f, .input 13, .input 99, .input 4, .read 1 false, .read 1 false,
    .read 9 false, .read 5 false, .input 4, .wake]

end XosKernel.Ldisc
