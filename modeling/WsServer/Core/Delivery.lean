/-
What a reader takes from the streams of a sender, while no move starts a packet inside another one.

`Sender` records for every packet of a message which stream it is on and whether in full. Here the streams are read
back: a log is whole packets and then an end, and the packets of messages among them are exactly those whose fate
names that stream, in the order they were sent.

- `Sender.carried k`: the packets of messages that stream `k` carries in full.
- `CutAs`: a log as its reader cuts it. Between the packets of messages stand only replies.
- `Tail`: what may stand at the end: a packet begun, or on a stream that ended a farewell.
- `Delivered`, `Moves.delivered`: in every run of moves that are orderly.
-/
import Mathlib
import WsServer.Core.Sender

namespace WsServer.Packets

variable {α μ : Type}

/-- what stream `k` carries in full, of what was sent and met its fate -/
def inFull {β : Type} (sent : List β) (fates : List Fate) (k : ℕ) : List β :=
  (sent.zip fates).filterMap fun x => if x.2 = ⟨k, true⟩ then some x.1 else none

def Sender.carried (s : Sender α μ) (k : ℕ) : List (μ × Packet α) := inFull s.sent s.fates k

/-- what is on the stream of the packet that is open -/
def Sender.openPart (s : Sender α μ) : Log α := s.cur.elim [] fun x => x.1.mark.take x.2

/-- a log as its reader cuts it: packets of the messages `c` and replies between them, then `e` -/
def CutAs (reply : List α → Prop) (c : List (μ × Packet α)) (w e : Log α) : Prop :=
  ∃ xs : List (Option μ × Packet α), w = xs.flatMap (fun x => x.2.mark) ++ e ∧
    xs.filterMap (fun x => x.1.map (·, x.2)) = c ∧ ∀ x ∈ xs, x.1 = none → reply x.2.body

/-- a packet of a message, a reply or a farewell -/
def Sender.Knows (reply bye : List α → Prop) (s : Sender α μ) (f : Packet α) : Prop :=
  (∃ m, (m, f) ∈ s.sent) ∨ reply f.body ∨ bye f.body

/-- nothing, or the beginning of a packet; the whole of it only if that may end a stream -/
def Tail (known : Packet α → Prop) (last : List α → Prop) (e : Log α) : Prop :=
  e = [] ∨ ∃ f, known f ∧ e <+: f.mark ∧ (e = f.mark → last f.body)

/-- what is written without a message -/
def Speaks (reply bye : List α → Prop) : Move α μ → Prop
  | .reply body => reply body
  | .farewell body _ => bye body
  | _ => True

structure Delivered (reply bye : List α → Prop) (s : Sender α μ) : Prop where
  ordered : Ordered s
  accounted : Accounted s
  urgent : ∀ f, s.urgent = some f → reply f.body
  past : ∀ (k : ℕ) (w : Log α), s.past[k]? = some w → ∃ e, CutAs reply (s.carried k) w e ∧
    Tail (s.Knows reply bye) bye e
  wire : ∃ e, CutAs reply (s.carried s.past.length) s.wire e ∧ Tail (s.Knows reply bye) (fun _ => False) e ∧
    (s.cut = false → e = s.openPart)

variable {reply bye last : List α → Prop} {s t : Sender α μ} {c : List (μ × Packet α)} {w e : Log α} {f : Packet α}
  {known known' : Packet α → Prop}

/-! ## Packets carried -/

theorem inFull_cons {β : Type} (x : β) (xs : List β) (a : Fate) (fates : List Fate) (k : ℕ) :
    inFull (x :: xs) (a :: fates) k = (if a = ⟨k, true⟩ then [x] else []) ++ inFull xs fates k := by
  unfold inFull
  rw [List.zip_cons_cons, List.filterMap_cons]
  dsimp only
  split_ifs <;> rfl

/-- what is carried keeps the order in which it was sent -/
theorem inFull_sublist {β : Type} (sent : List β) (fates : List Fate) (k : ℕ) : (inFull sent fates k).Sublist sent := by
  induction sent generalizing fates with
  | nil => exact List.Sublist.refl _
  | cons x sent ih =>
    cases fates with
    | nil => exact List.nil_sublist _
    | cons a fates =>
      rw [inFull_cons]
      split_ifs
      · exact (ih fates).cons_cons x
      · exact (ih fates).cons x

/-- a packet without a fate is on no stream in full -/
theorem inFull_sent {β : Type} {sent : List β} {fates : List Fate} (h : fates.length ≤ sent.length) (x : β) (k : ℕ) :
    inFull (sent ++ [x]) fates k = inFull sent fates k := by
  induction fates generalizing sent with
  | nil => rw [inFull, inFull, List.zip_nil_right, List.zip_nil_right]
  | cons a fates ih =>
    cases sent with
    | nil => exact absurd h (Nat.not_succ_le_zero _)
    | cons y sent => rw [List.cons_append, inFull_cons, inFull_cons, ih (Nat.le_of_succ_le_succ h)]

/-- the next packet gets its fate -/
theorem inFull_fate {β : Type} {sent : List β} {fates : List Fate} {x : β} (h : sent[fates.length]? = some x) (a : Fate) (k : ℕ) :
    inFull sent (fates ++ [a]) k = inFull sent fates k ++ if a = ⟨k, true⟩ then [x] else [] := by
  induction fates generalizing sent with
  | nil =>
    cases sent with
    | nil => cases h
    | cons y sent =>
      obtain rfl := Option.some.inj h
      rw [List.nil_append, inFull_cons, inFull, inFull, List.zip_nil_right, List.zip_nil_right,
        List.filterMap_nil, List.append_nil, List.nil_append]
  | cons b fates ih =>
    cases sent with
    | nil => cases h
    | cons y sent => rw [List.cons_append, inFull_cons, inFull_cons, ih h, List.append_assoc]

/-- nothing is carried by a stream to come -/
theorem Accounted.carried_next (h : Accounted s) {k : ℕ} (hk : s.past.length < k) : s.carried k = [] := by
  refine List.filterMap_eq_nil_iff.2 ?_
  rintro ⟨x, a⟩ hx
  obtain ⟨i, hi⟩ := List.mem_iff_getElem?.1 hx
  rw [List.getElem?_zip_eq_some] at hi
  have hle := (h.settled i x a hi.1 hi.2).le
  rw [if_neg]
  rintro rfl
  exact absurd hle hk.not_ge

/-- the end of a stream gives no packet in full -/
theorem Accounted.carried_detach (h : Accounted s) (k : ℕ) : s.detach.carried k = s.carried k := by
  unfold Sender.carried Sender.detach
  cases hd : s.data with
  | none => rfl
  | some f =>
    obtain ⟨m, hm, -⟩ := h.waiting f hd
    show inFull s.sent (s.fates ++ [⟨s.past.length, false⟩]) k = _
    rw [inFull_fate hm, if_neg (fun he => Bool.false_ne_true (congrArg Fate.whole he)), List.append_nil]

/-- what is said of what was sent, one by one, is said of what is carried -/
theorem inFull_forall {β γ : Type} {R : β → γ → Prop} {xs : List β} {ys : List γ} (h : List.Forall₂ R xs ys)
    (fates : List Fate) (k : ℕ) : List.Forall₂ R (inFull xs fates k) (inFull ys fates k) := by
  induction h generalizing fates with
  | nil => exact .nil
  | @cons x y xs ys hxy _ ih =>
    cases fates with
    | nil => exact .nil
    | cons a fates =>
      rw [inFull_cons, inFull_cons]
      split_ifs
      · exact .cons hxy (ih fates)
      · exact ih fates

/-! ## Cutting -/

theorem CutAs.nil : CutAs reply ([] : List (μ × Packet α)) [] [] := ⟨[], rfl, rfl, nofun⟩

/-- more is written -/
theorem CutAs.more (h : CutAs reply c w e) (z : Log α) : CutAs reply c (w ++ z) (e ++ z) := by
  obtain ⟨xs, rfl, hc, hr⟩ := h
  exact ⟨xs, List.append_assoc _ _ _, hc, hr⟩

/-- the packet of a message is written in full -/
theorem CutAs.message (h : CutAs reply c w f.mark) (m : μ) : CutAs reply (c ++ [(m, f)]) w [] := by
  obtain ⟨xs, rfl, rfl, hr⟩ := h
  refine ⟨xs ++ [(some m, f)], ?_, ?_, ?_⟩
  · rw [List.flatMap_append, List.flatMap_singleton, List.append_nil]
  · rw [List.filterMap_append]
    rfl
  · intro x hx hnone
    rcases List.mem_append.1 hx with hx | hx
    · exact hr x hx hnone
    · rw [List.mem_singleton.1 hx] at hnone
      cases hnone

/-- a reply is written in full -/
theorem CutAs.replied (h : CutAs reply c w f.mark) (hf : reply f.body) : CutAs reply c w [] := by
  obtain ⟨xs, rfl, rfl, hr⟩ := h
  refine ⟨xs ++ [(none, f)], ?_, ?_, ?_⟩
  · rw [List.flatMap_append, List.flatMap_singleton, List.append_nil]
  · rw [List.filterMap_append, List.filterMap_cons_none rfl, List.filterMap_nil, List.append_nil]
  · intro x hx hnone
    rcases List.mem_append.1 hx with hx | hx
    · exact hr x hx hnone
    · rw [List.mem_singleton.1 hx]
      exact hf

/-- what was known stays known -/
theorem Sender.Knows.mono (h : s.Knows reply bye f) (hsub : ∀ x ∈ s.sent, x ∈ t.sent) : t.Knows reply bye f := by
  rcases h with ⟨m, hm⟩ | h
  · exact .inl ⟨m, hsub _ hm⟩
  · exact .inr h

theorem Tail.mono (h : Tail known last e) (hsub : ∀ p, known p → known' p) : Tail known' last e := by
  rcases h with rfl | ⟨f, hf, hpre, hwhole⟩
  · exact .inl rfl
  · exact .inr ⟨f, hsub f hf, hpre, hwhole⟩

theorem Tail.weaken (h : Tail known (fun _ => False) e) : Tail known last e := by
  rcases h with rfl | ⟨f, hf, hpre, hwhole⟩
  · exact .inl rfl
  · exact .inr ⟨f, hf, hpre, fun he => (hwhole he).elim⟩

/-- the first part of a packet that is not finished -/
theorem Tail.part (hf : known f) {n : ℕ} (hn : n < f.body.length) : Tail known last (f.mark.take n) := by
  refine .inr ⟨f, hf, List.take_prefix _ _, fun he => ?_⟩
  have hlen := congrArg List.length he
  rw [List.length_take, length_mark] at hlen
  omega

/-! ## The packet that is open -/

theorem Sender.openPart_none (hu : s.urgentOff = 0) (hd : s.dataOff = 0) : s.openPart = [] := by
  unfold Sender.openPart
  rw [Sender.cur_none hu hd]
  rfl

theorem progress_part (f : Packet α) {n : ℕ} (hn : n < f.body.length) :
    ((progress f n).elim [] fun x => x.1.mark.take x.2) = f.mark.take n := by
  rcases Nat.eq_zero_or_pos n with rfl | hpos
  · rfl
  · rw [progress_pos hpos hn]
    rfl

theorem Sender.openPart_urgent (hu : s.urgent = some f) (hd : s.dataOff = 0) (hn : s.urgentOff < f.body.length) :
    s.openPart = f.mark.take s.urgentOff := by
  have hdata : (s.data.bind fun g => progress g s.dataOff) = none := by
    rw [hd]
    cases s.data <;> rfl
  rw [Sender.openPart, Sender.cur, hdata, Option.or_none, hu, Option.bind_some, progress_part f hn]

theorem Sender.openPart_data (hu : s.urgent = none) (hd : s.data = some f) (hn : s.dataOff < f.body.length) :
    s.openPart = f.mark.take s.dataOff := by
  rw [Sender.openPart, Sender.cur, hu, hd, Option.bind_none, Option.none_or, Option.bind_some, progress_part f hn]

theorem mark_pieces (f : Packet α) {a b : ℕ} (h : a ≤ b) : f.mark.take a ++ (f.mark.drop a).take (b - a) = f.mark.take b := by
  rw [← List.take_add, Nat.add_sub_cancel' h]

theorem mark_whole (f : Packet α) : f.mark.take f.body.length = f.mark := by
  rw [← length_mark, List.take_length]

/-- between two packets the log is whole packets only -/
theorem Delivered.between (h : Delivered reply bye s) (hm : ¬ s.mid) :
    CutAs reply (s.carried s.past.length) s.wire [] := by
  obtain ⟨e, hcut, -, hopen⟩ := h.wire
  unfold Sender.mid at hm
  push Not at hm
  have hnone : s.openPart = [] := Sender.openPart_none (by omega) (by omega)
  rwa [hopen (Bool.not_eq_true _ ▸ hm.2.2), hnone] at hcut

/-! ## The moves -/

/-- the stream ends: it is cut as it was, and the next one is empty -/
theorem delivered_detach {u : Sender α μ} (hacc : Accounted u)
    (hpast : ∀ (k : ℕ) (w : Log α), u.past[k]? = some w → ∃ e, CutAs reply (u.carried k) w e ∧
      Tail (u.Knows reply bye) bye e)
    (hwire : ∃ e, CutAs reply (u.carried u.past.length) u.wire e ∧ Tail (u.Knows reply bye) bye e) (ho : Ordered u.detach) :
    Delivered reply bye u.detach where
  ordered := ho
  accounted := hacc.detach
  urgent f hf := nomatch hf
  past k w hw := by
    rw [hacc.carried_detach]
    rcases logs_cases (s := u) hw with ⟨-, hp⟩ | ⟨rfl, rfl⟩
    · exact hpast k w hp
    · exact hwire
  wire := by
    have hlen : u.detach.past.length = u.past.length + 1 := List.length_append
    refine ⟨[], ?_, .inl rfl, fun _ => (Sender.openPart_none rfl rfl).symm⟩
    rw [hacc.carried_detach, hlen, hacc.carried_next (Nat.lt_succ_self _)]
    exact CutAs.nil

theorem Delivered.farewell (h : Delivered reply bye s) {body : List α} {n : ℕ} (hc : s.can (.farewell body n))
    (ho : s.orderly (.farewell body n)) (hb : bye body) : Delivered reply bye (s.move (.farewell body n)) := by
  have hordered := h.ordered.move hc ho
  obtain ⟨hp, hne, hn⟩ := hc
  have hacc : Accounted ((s.make body).put (s.fresh body) 0 n) :=
    (h.accounted.make hne).put_other (h.accounted.fresh_id body) (h.ordered.slots.make_put hne hp n)
  refine delivered_detach hacc h.past ?_ hordered
  by_cases hm : s.mid
  · -- in the middle of a packet nothing of it is taken
    obtain rfl := ho hm
    obtain ⟨e, hcut, htail, -⟩ := h.wire
    have hmore := hcut.more []
    rw [List.append_nil e] at hmore
    exact ⟨e, hmore, htail.weaken⟩
  · exact ⟨(s.fresh body).mark.take n, (h.between hm).more _,
      .inr ⟨s.fresh body, .inr (.inr hb), List.take_prefix _ _, fun _ => hb⟩⟩

theorem Delivered.flushUrgent (h : Delivered reply bye s) {n : ℕ} (hc : s.can (.flushUrgent n))
    (ho : s.orderly (.flushUrgent n)) : Delivered reply bye (s.move (.flushUrgent n)) := by
  have hordered := h.ordered.move hc ho
  have hacc := h.accounted.move hc
  obtain ⟨hp, hcut, f, hf, hle, hn⟩ := hc
  have hs := h.ordered.slots.urgent f hf
  have hd : s.dataOff = 0 ∨ s.urgentOff = 0 ∧ n = 0 := by
    rcases h.ordered.once with hu | hd
    · rcases Nat.eq_zero_or_pos s.dataOff with hd | hd
      · exact .inl hd
      · exact .inr ⟨hu, ho hu hd⟩
    · exact .inl hd
  simp only [Sender.move, hf, Option.elim_some] at hordered hacc ⊢
  rcases hd with hd | ⟨hu, rfl⟩
  · obtain ⟨e, hall, -, hopen⟩ := h.wire
    rw [hopen hcut, Sender.openPart_urgent hf hd hs.lt] at hall
    have hwire : CutAs reply (s.carried s.past.length) (s.put f s.urgentOff n).wire (f.mark.take n) := by
      have hmore := hall.more ((f.mark.drop s.urgentOff).take (n - s.urgentOff))
      rwa [mark_pieces f hle] at hmore
    unfold Sender.flushUrgent at hordered hacc ⊢
    split_ifs at hordered hacc ⊢ with heq
    · rw [heq, mark_whole] at hwire
      have hnone : Sender.openPart { s.put f s.urgentOff n with urgent := none, urgentOff := 0 } = [] :=
        Sender.openPart_none rfl hd
      refine ⟨hordered, hacc, fun g hg => (by cases hg), h.past, [], ?_, .inl rfl, fun _ => hnone.symm⟩
      exact (heq ▸ hwire).replied (h.urgent f hf)
    · have hlt : n < f.body.length := lt_of_le_of_ne hn heq
      refine ⟨hordered, hacc, h.urgent, h.past, f.mark.take n, hwire, .part (.inr (.inl (h.urgent f hf))) hlt,
        fun _ => ?_⟩
      exact (Sender.openPart_urgent (s := { s.put f s.urgentOff n with urgentOff := n }) hf hd hlt).symm
  · -- nothing is taken, nothing changes
    have hlen : 0 ≠ f.body.length := fun h0 => by have := hs.lt; omega
    have hput : s.put f s.urgentOff 0 = s := by simp [Sender.put]
    have hsame : s.flushUrgent f 0 = s := by rw [Sender.flushUrgent, if_neg hlen, hput, ← hu]
    rw [hsame]
    exact h

theorem Delivered.flushData (h : Delivered reply bye s) {n : ℕ} (hc : s.can (.flushData n)) :
    Delivered reply bye (s.move (.flushData n)) := by
  have hordered := h.ordered.move hc trivial
  have hacc := h.accounted.move hc
  obtain ⟨hp, hcut, hu, f, hf, hle, hn⟩ := hc
  have hs := h.ordered.slots.data f hf
  obtain ⟨m, hm, -⟩ := h.accounted.waiting f hf
  obtain ⟨e, hall, -, hopen⟩ := h.wire
  rw [hopen hcut, Sender.openPart_data hu hf hs.lt] at hall
  have hwire : CutAs reply (s.carried s.past.length) (s.put f s.dataOff n).wire (f.mark.take n) := by
    have hmore := hall.more ((f.mark.drop s.dataOff).take (n - s.dataOff))
    rwa [mark_pieces f hle] at hmore
  simp only [Sender.move, hf, Option.elim_some] at hordered hacc ⊢
  unfold Sender.flushData at hordered hacc ⊢
  split_ifs at hordered hacc ⊢ with heq
  · rw [heq, mark_whole] at hwire
    have hnone : Sender.openPart { s.put f s.dataOff n with
        data := none
        dataOff := 0
        fates := s.fates ++ [⟨s.past.length, true⟩] } = [] := Sender.openPart_none (h.ordered.slots.urgent_off hu) rfl
    refine ⟨hordered, hacc, h.urgent, fun k w hw => ?_, [], ?_, .inl rfl, fun _ => hnone.symm⟩
    · -- the packet is on the present stream, not on this one
      have hk := (List.getElem?_eq_some_iff.1 hw).1
      have hsame : inFull s.sent (s.fates ++ [⟨s.past.length, true⟩]) k = s.carried k := by
        rw [inFull_fate hm, if_neg (fun he => hk.ne' (congrArg Fate.stream he)), List.append_nil]
        rfl
      obtain ⟨e', hcut', htail'⟩ := h.past k w hw
      refine ⟨e', ?_, htail'⟩
      show CutAs reply (inFull s.sent (s.fates ++ [⟨s.past.length, true⟩]) k) w e'
      rwa [hsame]
    · have hnext : inFull s.sent (s.fates ++ [⟨s.past.length, true⟩]) s.past.length =
          s.carried s.past.length ++ [(m, f)] := by
        rw [inFull_fate hm, if_pos rfl]
        rfl
      have hdone := hwire.message m
      rw [← hnext] at hdone
      exact heq ▸ hdone
  · have hlt : n < f.body.length := lt_of_le_of_ne hn heq
    refine ⟨hordered, hacc, h.urgent, h.past, f.mark.take n, hwire, .part (.inl ⟨m, List.mem_of_getElem? hm⟩) hlt,
      fun _ => ?_⟩
    exact (Sender.openPart_data (s := { s.put f s.dataOff n with dataOff := n }) hu hf hlt).symm

theorem Delivered.drain (h : Delivered reply bye s) {m : μ} {body : List α} {n : ℕ} (hc : s.can (.drain m body n))
    (ho : s.orderly (.drain m body n)) : Delivered reply bye (s.move (.drain m body n)) := by
  have hordered := h.ordered.move hc ho
  have hacc := h.accounted.move hc
  obtain ⟨hp, hd, hu, hb, hn⟩ := hc
  have hsent : (s.sent ++ [(m, s.fresh body)])[s.fates.length]? = some (m, s.fresh body) := by
    rw [← h.accounted.idle hd]
    exact List.getElem?_concat_length
  have hcarried : ∀ k, (s.drain m body n).carried k =
      s.carried k ++ if (⟨s.past.length, n = body.length⟩ : Fate) = ⟨k, true⟩ then [(m, s.fresh body)] else [] := by
    intro k
    refine (inFull_fate hsent _ k).trans ?_
    rw [inFull_sent h.accounted.fates_le]
    rfl
  have hsub : ∀ p, s.Knows reply bye p → (s.drain m body n).Knows reply bye p :=
    fun p hp => hp.mono fun x hx => List.mem_append_left _ hx
  have hempty : (s.drain m body n).openPart = [] :=
    Sender.openPart_none (h.ordered.slots.urgent_off hu) (h.ordered.slots.data_off hd)
  refine ⟨hordered, hacc, fun f hf => ?_, fun k w hw => ?_, ?_⟩
  · exact absurd (hf.symm.trans hu) (Option.some_ne_none f)
  · have hk := (List.getElem?_eq_some_iff.1 hw).1
    obtain ⟨e, hcut, htail⟩ := h.past k w hw
    refine ⟨e, ?_, htail.mono hsub⟩
    show CutAs reply ((s.drain m body n).carried k) w e
    rw [hcarried, if_neg (fun he => hk.ne' (congrArg Fate.stream he)), List.append_nil]
    exact hcut
  · have hpos := List.length_pos_of_ne_nil hb
    show ∃ e, CutAs reply ((s.drain m body n).carried s.past.length) ((s.make body).put (s.fresh body) 0 n).wire e ∧ _ ∧
      ((s.cut || (0 < n && n ≠ body.length)) = false → _)
    rw [hcarried]
    by_cases hm : s.mid
    · -- an earlier packet was cut off, and nothing is taken any more
      obtain rfl := ho hm
      obtain ⟨e, hcut, htail, -⟩ := h.wire
      have hstop : s.cut = true := by
        rcases hm with hm | hm | hm
        · exact absurd (h.ordered.slots.data_off hd) hm.ne'
        · exact absurd (h.ordered.slots.urgent_off hu) hm.ne'
        · exact hm
      refine ⟨e, ?_, htail.mono hsub, fun hcut' => ?_⟩
      · have hpart : (⟨s.past.length, 0 = body.length⟩ : Fate) ≠ ⟨s.past.length, true⟩ := fun he =>
          hpos.ne (of_decide_eq_true (congrArg Fate.whole he))
        have hmore := hcut.more []
        rw [List.append_nil e] at hmore
        rw [if_neg hpart, List.append_nil]
        exact hmore
      · rw [hstop] at hcut'
        cases hcut'
    · have hwire := (h.between hm).more (((s.fresh body).mark.drop 0).take (n - 0))
      rw [List.nil_append, List.drop_zero, Nat.sub_zero] at hwire
      by_cases heq : n = body.length
      · have hfate : (⟨s.past.length, n = body.length⟩ : Fate) = ⟨s.past.length, true⟩ := by
          rw [decide_eq_true heq]
        rw [if_pos hfate]
        have hfull : (s.fresh body).mark.take n = (s.fresh body).mark := by rw [heq]; exact mark_whole (s.fresh body)
        have hput : ((s.make body).put (s.fresh body) 0 n).wire = s.wire ++ (s.fresh body).mark :=
          congrArg (s.wire ++ ·) hfull
        rw [hfull] at hwire
        rw [hput]
        exact ⟨[], hwire.message m, .inl rfl, fun _ => hempty.symm⟩
      · have hfate : (⟨s.past.length, n = body.length⟩ : Fate) ≠ ⟨s.past.length, true⟩ := fun he =>
          heq (of_decide_eq_true (congrArg Fate.whole he))
        rw [if_neg hfate, List.append_nil]
        have hmem : (m, s.fresh body) ∈ (s.drain m body n).sent := List.mem_of_getElem? hsent
        refine ⟨_, hwire, .part (.inl ⟨m, hmem⟩) (show n < body.length by omega), fun hcut => ?_⟩
        obtain rfl : n = 0 := by
          rw [Bool.or_eq_false_iff, Bool.and_eq_false_iff, decide_eq_false_iff_not, decide_eq_false_iff_not] at hcut
          rcases hcut.2 with h0 | h0
          · omega
          · exact absurd heq h0
        exact hempty.symm

/-- **An orderly move keeps the streams readable.** -/
theorem Delivered.move (h : Delivered reply bye s) {m : Move α μ} (hc : s.can m) (ho : s.orderly m)
    (hsay : Speaks reply bye m) : Delivered reply bye (s.move m) := by
  have hordered := h.ordered.move hc ho
  have hacc := h.accounted.move hc
  cases m with
  | attach k => exact ⟨hordered, hacc, h.urgent, h.past, h.wire⟩
  | detach =>
    obtain ⟨e, hcut, htail, -⟩ := h.wire
    exact delivered_detach h.accounted h.past ⟨e, hcut, htail.weaken⟩ hordered
  | farewell body n => exact h.farewell hc ho hsay
  | flushUrgent n => exact h.flushUrgent hc ho
  | flushData n => exact h.flushData hc
  | reply body =>
    have hcur : (s.move (.reply body)).openPart = s.openPart := by
      have hsame : (s.move (.reply body)).cur = s.cur := by simp [Sender.cur, Sender.move, Sender.make, hc.2.1]
      rw [Sender.openPart, hsame]
      rfl
    obtain ⟨e, hcut, htail, hopen⟩ := h.wire
    refine ⟨hordered, hacc, fun f hf => ?_, h.past, e, hcut, htail, ?_⟩
    · obtain rfl := Option.some.inj hf
      exact hsay
    · rwa [hcur]
  | load m body =>
    have hcur : (s.move (.load m body)).openPart = s.openPart := by
      have hsame : (s.move (.load m body)).cur = s.cur := by simp [Sender.cur, Sender.move, Sender.make, hc.2.1]
      rw [Sender.openPart, hsame]
      rfl
    have hcarried : ∀ k, (s.move (.load m body)).carried k = s.carried k :=
      fun k => inFull_sent h.accounted.fates_le _ k
    have hsub : ∀ p, s.Knows reply bye p → (s.move (.load m body)).Knows reply bye p :=
      fun p hp => hp.mono fun x hx => List.mem_append_left _ hx
    obtain ⟨e, hcut, htail, hopen⟩ := h.wire
    refine ⟨hordered, hacc, h.urgent, fun k w hw => ?_, e, ?_, htail.mono hsub, ?_⟩
    · obtain ⟨e', hcut', htail'⟩ := h.past k w hw
      rw [hcarried]
      exact ⟨e', hcut', htail'.mono hsub⟩
    · rw [hcarried]
      exact hcut
    · rwa [hcur]
  | drain m body n => exact h.drain hc ho

/-- **What a reader cuts from a stream is what was sent on it**, in every run of moves that are orderly. -/
theorem Moves.delivered {Q : Sender α μ → Move α μ → Prop} (h : Moves Q s t)
    (hq : ∀ u m, u.can m → Q u m → u.orderly m ∧ Speaks reply bye m) (hs : Delivered reply bye s) :
    Delivered reply bye t :=
  h.invariant (fun u m hu hc hm => hu.move hc (hq u m hc hm).1 (hq u m hc hm).2) hs

end WsServer.Packets
