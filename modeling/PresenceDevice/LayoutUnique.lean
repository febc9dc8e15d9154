import PresenceDevice.LayoutTrace

/-!
# The rules of the layout determine its lines

At each line start exactly one of the rules of `Emitted` applies, so any lines derived by the
rules are the first lines of any complete layout of the body. This is what turns a derivation for
a given body into a statement about the result of `presence_layout_body`.

## Main results

* `emitStep_rightUnique`: the rules are deterministic
* `LaidOut.reaches`: a complete layout extends every derivation
* `LaidOut.unique`: there is one complete layout
-/

namespace PresenceDevice

open Relation

variable {body : CString}

/-! ### Sequences from a common start -/

theorem sequenceStep_rightUnique : Relator.RightUnique (SequenceStep body) := by
  intro e e₁ e₂ h₁ h₂
  rw [h₁, h₂]

theorem le_of_sequenceSteps {a e : ℕ} (h : ReflTransGen (SequenceStep body) a e) : a ≤ e := by
  induction h with
  | refl => exact Nat.le_refl a
  | tail _ hstep ih =>
    rw [hstep]
    omega

/-- Between two offsets reached from the same start, the earlier one's sequence fits. -/
theorem sequence_le_of_lt {a e₁ e₂ : ℕ} (h₁ : ReflTransGen (SequenceStep body) a e₁)
    (h₂ : ReflTransGen (SequenceStep body) a e₂) (hlt : e₁ < e₂) :
    e₁ + utf8SequenceLength body e₁ ≤ e₂ := by
  rcases ReflTransGen.total_of_right_unique sequenceStep_rightUnique h₁ h₂ with h | h
  · rcases ReflTransGen.cases_head h with rfl | ⟨e, hstep, hrest⟩
    · omega
    · rw [← hstep]
      exact le_of_sequenceSteps hrest
  · have := le_of_sequenceSteps h
    omega

/-- Scanning never steps over a byte that is not a continuation byte. -/
theorem sequenceSteps_to {a t : ℕ} (hat : a ≤ t) (ht : ¬ Utf8.IsContinuation (body.charAt t)) :
    ReflTransGen (SequenceStep body) a t := by
  induction h : t - a using Nat.strongRecOn generalizing a with
  | ind n ih =>
    rcases Nat.eq_or_lt_of_le hat with rfl | hlt
    · exact .refl
    · have hpos := utf8SequenceLength_pos body a
      have hle : a + utf8SequenceLength body a ≤ t := by
        by_contra hgt
        obtain ⟨j, rfl⟩ := Nat.exists_eq_add_of_le hat
        exact ht (isContinuation_of_lt_sequence (by omega) (by omega))
      exact .head rfl (ih _ (by omega) hle rfl)

/-! ### The rules as a step relation -/

/-- One rule of `Emitted`, from the lines and the line start before it to those after it. -/
inductive EmitStep (body : CString) :
    List PresenceLine × ℕ → List PresenceLine × ℕ → Prop
  | skip {ls : List PresenceLine} {p : ℕ} : IsBlank (body.charAt p) →
      EmitStep body (ls, p) (ls, p + 1)
  | newline {ls : List PresenceLine} {p e : ℕ} : Scanned body p e → body.charAt e = newline →
      EmitStep body (ls, p) (ls ++ [⟨p, e - p⟩], e + 1)
  | wrap {ls : List PresenceLine} {p q b : ℕ} : Scanned body p q → Overflows body p q →
      LastBlank body p q (some b) → EmitStep body (ls, p) (ls ++ [⟨p, b - p⟩], b + 1)
  | split {ls : List PresenceLine} {p q : ℕ} : Scanned body p q → Overflows body p q →
      LastBlank body p q none → EmitStep body (ls, p) (ls ++ [⟨p, q - p⟩], q)

theorem Emitted.reaches {ls : List PresenceLine} {p : ℕ} (h : Emitted body ls p) :
    ReflTransGen (EmitStep body) ([], 0) (ls, p) := by
  induction h with
  | start => exact .refl
  | skip _ hb ih => exact ih.tail (.skip hb)
  | newline _ hs hn ih => exact ih.tail (.newline hs hn)
  | wrap _ hs ho hb ih => exact ih.tail (.wrap hs ho hb)
  | split _ hs ho hb ih => exact ih.tail (.split hs ho hb)

/-- The byte at which the scan of a line stops: a newline, or a sequence that no longer fits. -/
def Stops (body : CString) (p e : ℕ) : Prop := body.charAt e = newline ∨ Overflows body p e

theorem Scanned.stop_unique {p e₁ e₂ : ℕ} (h₁ : Scanned body p e₁) (h₂ : Scanned body p e₂)
    (hs₁ : Stops body p e₁) (hs₂ : Stops body p e₂) : e₁ = e₂ := by
  -- a scan that went on past a stop would hold a newline or be too wide
  have key : ∀ {e e' : ℕ}, Scanned body p e → Scanned body p e' → Stops body p e → ¬ e < e' := by
    intro e e' h h' hs hlt
    rcases hs with hn | ho
    · exact h'.no_newline e h.le hlt hn
    · have := sequence_le_of_lt h.aligned h'.aligned hlt
      have := ho.full
      have := h'.fits
      have := h.le
      omega
  rcases Nat.lt_trichotomy e₁ e₂ with hlt | heq | hgt
  · exact absurd hlt (key h₁ h₂ hs₁)
  · exact heq
  · exact absurd hgt (key h₂ h₁ hs₂)

theorem LastBlank.unique {a e : ℕ} {o₁ o₂ : Option ℕ} (h₁ : LastBlank body a e o₁)
    (h₂ : LastBlank body a e o₂) : o₁ = o₂ := by
  cases o₁ with
  | none =>
    cases o₂ with
    | none => rfl
    | some b => exact absurd h₂.2.2.1 (h₁ b (Nat.le_of_lt h₂.1) h₂.2.1)
  | some b =>
    cases o₂ with
    | none => exact absurd h₁.2.2.1 (h₂ b (Nat.le_of_lt h₁.1) h₁.2.1)
    | some b' =>
      obtain ⟨h1, h2, h3, h4⟩ := h₁
      obtain ⟨k1, k2, k3, k4⟩ := h₂
      rcases Nat.lt_trichotomy b b' with hlt | heq | hgt
      · exact absurd k3 (h4 b' hlt k2)
      · rw [heq]
      · exact absurd h3 (k4 b hgt h2)

/-- A blank at a line start is skipped, so no line is scanned from it. -/
theorem Scanned.not_isBlank {p e : ℕ} (h : Scanned body p e) (hs : Stops body p e) :
    ¬ IsBlank (body.charAt p) := by
  rcases Nat.eq_or_lt_of_le h.le with rfl | hlt
  · rcases hs with hn | ho
    · exact fun hb => hb.ne_newline hn
    · exact absurd ho.lt (Nat.lt_irrefl p)
  · exact h.head hlt

/-- A line that ends at a newline does not overflow. -/
theorem Overflows.not_newline {p q e : ℕ} (ho : Overflows body p q) (hq : Scanned body p q)
    (he : Scanned body p e) (hn : body.charAt e = newline) : False := by
  rw [he.stop_unique hq (Or.inl hn) (Or.inr ho)] at hn
  exact ho.char_ne_newline hn

/-- **The rules are deterministic.** -/
theorem emitStep_rightUnique : Relator.RightUnique (EmitStep body) := by
  intro x y z hy hz
  cases hy with
  | skip hb =>
    cases hz with
    | skip => rfl
    | newline hs hn => exact absurd hb (hs.not_isBlank (Or.inl hn))
    | wrap hs ho => exact absurd hb (hs.not_isBlank (Or.inr ho))
    | split hs ho => exact absurd hb (hs.not_isBlank (Or.inr ho))
  | newline hs hn =>
    cases hz with
    | skip hb => exact absurd hb (hs.not_isBlank (Or.inl hn))
    | newline hs' hn' =>
      rw [hs.stop_unique hs' (Or.inl hn) (Or.inl hn')]
    | wrap hs' ho' => exact (ho'.not_newline hs' hs hn).elim
    | split hs' ho' => exact (ho'.not_newline hs' hs hn).elim
  | wrap hs ho hb =>
    cases hz with
    | skip hblank => exact absurd hblank (hs.not_isBlank (Or.inr ho))
    | newline hs' hn' => exact (ho.not_newline hs hs' hn').elim
    | wrap hs' ho' hb' =>
      obtain rfl := hs.stop_unique hs' (Or.inr ho) (Or.inr ho')
      obtain rfl := Option.some.inj (hb.unique hb')
      rfl
    | split hs' ho' hb' =>
      obtain rfl := hs.stop_unique hs' (Or.inr ho) (Or.inr ho')
      cases hb.unique hb'
  | split hs ho hb =>
    cases hz with
    | skip hblank => exact absurd hblank (hs.not_isBlank (Or.inr ho))
    | newline hs' hn' => exact (ho.not_newline hs hs' hn').elim
    | wrap hs' ho' hb' =>
      obtain rfl := hs.stop_unique hs' (Or.inr ho) (Or.inr ho')
      cases hb.unique hb'
    | split hs' ho' =>
      rw [hs.stop_unique hs' (Or.inr ho) (Or.inr ho')]

/-! ### Complete layouts extend derivations -/

/-- At the end of the body no rule applies. -/
theorem Scanned.final {p : ℕ} (h : Scanned body p body.strlen) {ls : List PresenceLine}
    {y : List PresenceLine × ℕ} : ¬ EmitStep body (ls, p) y := by
  have hz : body.charAt body.strlen = 0 := CString.charAt_of_le (Nat.le_refl _)
  -- a stop inside the body contradicts the scan to its end
  have key : ∀ {e : ℕ}, Scanned body p e → Stops body p e → False := by
    intro e he hs
    have hlt : e < body.strlen := by
      rcases hs with hn | ho
      · exact lt_strlen_of_newline hn
      · exact CString.lt_strlen_of_charAt_ne_zero ho.char_ne_zero
    rcases hs with hn | ho
    · exact h.no_newline e he.le hlt hn
    · have := sequence_le_of_lt he.aligned h.aligned hlt
      have := ho.full
      have := h.fits
      have := he.le
      omega
  intro hstep
  cases hstep with
  | skip hb =>
    have hlt := CString.lt_strlen_of_charAt_ne_zero hb.ne_zero
    exact h.head hlt hb
  | newline hs hn => exact key hs (Or.inl hn)
  | wrap hs ho => exact key hs (Or.inr ho)
  | split hs ho => exact key hs (Or.inr ho)

/-- What a derivation reaches, it extends. -/
theorem prefix_of_reaches {x y : List PresenceLine × ℕ} (h : ReflTransGen (EmitStep body) x y) :
    x.1 <+: y.1 := by
  induction h with
  | refl => exact List.prefix_refl _
  | tail _ hstep ih =>
    refine ih.trans ?_
    cases hstep with
    | skip => exact List.prefix_refl _
    | newline | wrap | split => exact List.prefix_append ..

/-- **A complete layout extends every derivation.** From the point reached, the rules lead to the
last line start of the layout. -/
theorem LaidOut.reaches {ls fs : List PresenceLine} {p : ℕ} (h : LaidOut body fs)
    (hls : Emitted body ls p) :
    (∃ gs q, ReflTransGen (EmitStep body) (ls, p) (gs, q) ∧ Scanned body q body.strlen ∧
        (q < body.strlen ∨ gs = [] ∨ body.charAt (body.strlen - 1) = newline) ∧
        fs = gs ++ [⟨q, body.strlen - q⟩]) ∨
      ReflTransGen (EmitStep body) (ls, p) (fs, body.strlen) := by
  -- the end of the layout and the point reached lie on one path; the end has no successor
  have key : ∀ {gs : List PresenceLine} {q : ℕ}, Emitted body gs q →
      Scanned body q body.strlen → ReflTransGen (EmitStep body) (ls, p) (gs, q) := by
    intro gs q hgs hq
    rcases ReflTransGen.total_of_right_unique emitStep_rightUnique hls.reaches hgs.reaches
      with h' | h'
    · exact h'
    · rcases ReflTransGen.cases_head h' with heq | ⟨y, hstep, -⟩
      · rw [heq]
      · exact absurd hstep hq.final
  cases h with
  | @last gs q hgs hq hdue => exact Or.inl ⟨gs, q, key hgs hq, hq, hdue, rfl⟩
  | done hgs _ _ => exact Or.inr (key hgs (.refl (Nat.le_refl _)))

/-- Two derivations that both reached the end of the body are the same. -/
theorem Emitted.eq_of_final {gs fs : List PresenceLine} {p q : ℕ} (hgs : Emitted body gs p)
    (hp : Scanned body p body.strlen) (hfs : Emitted body fs q)
    (hq : Scanned body q body.strlen) : (gs, p) = (fs, q) := by
  rcases ReflTransGen.total_of_right_unique emitStep_rightUnique hgs.reaches hfs.reaches
    with h | h
  · rcases ReflTransGen.cases_head h with heq | ⟨y, hstep, -⟩
    · exact heq
    · exact absurd hstep hp.final
  · rcases ReflTransGen.cases_head h with heq | ⟨y, hstep, -⟩
    · exact heq.symm
    · exact absurd hstep hq.final

/-- **A body has one complete layout.** -/
theorem LaidOut.unique {gs fs : List PresenceLine} (h : LaidOut body gs) (h' : LaidOut body fs) :
    gs = fs := by
  have hend : Scanned body body.strlen body.strlen := .refl (Nat.le_refl _)
  -- a layout with nothing left over has no line left to add
  have key : ∀ {ls : List PresenceLine}, ls ≠ [] → body.charAt (body.strlen - 1) ≠ newline →
      ¬ (body.strlen < body.strlen ∨ ls = [] ∨ body.charAt (body.strlen - 1) = newline) := by
    rintro ls hne hnl (hlt | hnil | hnl')
    · exact Nat.lt_irrefl _ hlt
    · exact hne hnil
    · exact hnl hnl'
  cases h with
  | last hls hp hdue =>
    cases h' with
    | last hls' hq _ =>
      obtain ⟨rfl, rfl⟩ := Prod.mk.inj (hls.eq_of_final hp hls' hq)
      rfl
    | done hls' hne hnl =>
      obtain ⟨rfl, rfl⟩ := Prod.mk.inj (hls.eq_of_final hp hls' hend)
      exact absurd hdue (key hne hnl)
  | done hls hne hnl =>
    cases h' with
    | last hls' hq hdue =>
      obtain ⟨rfl, rfl⟩ := Prod.mk.inj (hls'.eq_of_final hq hls hend)
      exact absurd hdue (key hne hnl)
    | done hls' _ _ => exact (Prod.mk.inj (hls.eq_of_final hend hls' hend)).1

end PresenceDevice
