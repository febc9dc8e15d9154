import PresenceDevice.LayoutPartition
import PresenceDevice.LayoutUnique

/-!
# Layouts with any line limit

With any limit `presence_layout_body` stores the first lines of the complete layout, as many as the
limit allows, and touches no other entry of the array. `trueLines` are these lines as the loop has
them, before a start is cast to 16 bits. In a body that such offsets can address they are the result
itself.

## Main definitions

* `trueLines`: the lines that are stored, before the casts

## Main results

* `presenceLayoutBody_trueLines`: the result is `trueLines`, cast
* `LaidOut.trueLines_eq`: `trueLines` are the first lines of the complete layout
* `presenceLayoutBody_limit`: a smaller limit gives a prefix
-/

namespace PresenceDevice

variable {body : CString} {lines : ℕ → PresenceLine} {maxLines : ℕ}

/-- The lines that `presence_layout_body` stores, with their starts before the cast. -/
def trueLines (body : CString) (lines : ℕ → PresenceLine) (maxLines : ℕ) : List PresenceLine :=
  if maxLines = 0 then []
  else if body.charAt 0 = 0 then [⟨0, 0⟩]
  else
    let s := layoutLoop body lines maxLines
    loopLines body lines maxLines ++ s.storedBy (layoutFinish body maxLines s)

/-! ### The limit is respected -/

theorem layoutStep_lineCount_le {s s' : LayoutState} (h : layoutStep body maxLines s = some s') :
    s'.lineCount ≤ maxLines := by
  obtain ⟨⟨-, hlt⟩, hcases⟩ := layoutStep_cases h
  rcases hcases with ⟨-, rfl⟩ | ⟨-, -, -, ⟨b, -, rfl⟩ | ⟨-, rfl⟩⟩ | ⟨-, -, rfl⟩ | ⟨-, -, -, rfl⟩
  · exact hlt
  · exact hlt
  · exact hlt
  · exact Nat.le_of_lt hlt
  · exact Nat.le_of_lt hlt

theorem layoutLoop_lineCount_le (body : CString) (lines : ℕ → PresenceLine) (maxLines : ℕ) :
    (layoutLoop body lines maxLines).lineCount ≤ maxLines :=
  Loop.run_invariant (I := fun s => s.lineCount ≤ maxLines)
    (fun _ _ _ hstep => layoutStep_lineCount_le hstep) (Nat.zero_le _) _

/-- The entries from `line_count` on are those the array came with. -/
def RestUntouched (lines : ℕ → PresenceLine) (s : LayoutState) : Prop :=
  ∀ i, s.lineCount ≤ i → s.lines i = lines i

theorem RestUntouched.emit {s : LayoutState} (h : RestUntouched lines s) (start length : ℕ) :
    RestUntouched lines (s.emit start length) := by
  intro i hi
  have hlt : s.lineCount < i := hi
  change Function.update s.lines s.lineCount _ i = _
  rw [Function.update_of_ne hlt.ne']
  exact h i hlt.le

theorem layoutStep_restUntouched {s s' : LayoutState} (h : RestUntouched lines s)
    (hstep : layoutStep body maxLines s = some s') : RestUntouched lines s' := by
  obtain ⟨-, hcases⟩ := layoutStep_cases hstep
  rcases hcases with ⟨-, rfl⟩ | ⟨-, -, -, ⟨b, -, rfl⟩ | ⟨-, rfl⟩⟩ | ⟨-, -, rfl⟩ | ⟨-, -, -, rfl⟩
  · exact h.emit _ _
  · exact h.emit _ _
  · exact h.emit _ _
  · exact h
  · exact h

theorem layoutFinish_restUntouched {s : LayoutState} (h : RestUntouched lines s) :
    RestUntouched lines (layoutFinish body maxLines s) := by
  unfold layoutFinish
  split_ifs
  · exact h.emit _ _
  · exact h

theorem layoutLoop_restUntouched (body : CString) (lines : ℕ → PresenceLine) (maxLines : ℕ) :
    RestUntouched lines (layoutLoop body lines maxLines) :=
  Loop.run_invariant (I := RestUntouched lines)
    (fun _ _ h hstep => layoutStep_restUntouched h hstep)
    (fun _ _ => rfl) _

/-! ### The result and the complete layout -/

/-- **The lines returned are the true lines, cast.** -/
theorem presenceLayoutBody_trueLines (body : CString) (lines : ℕ → PresenceLine) (maxLines : ℕ) :
    layoutLines (presenceLayoutBody (some body) (some lines) maxLines) =
      (trueLines body lines maxLines).map PresenceLine.stored := by
  by_cases hmax : maxLines = 0
  · simp [presenceLayoutBody, trueLines, hmax, layoutLines_some]
  · by_cases hempty : body.charAt 0 = 0
    · simp [presenceLayoutBody, trueLines, hmax, hempty, layoutLines_some, PresenceLine.stored]
    · simp only [presenceLayoutBody, trueLines, if_neg hmax, if_neg hempty, layoutLines_some]
      exact layoutFinish_emitted (layoutLoop_inv body lines maxLines)

/-- Whatever the rules derive are the first lines of the complete layout. -/
theorem LaidOut.prefix_of_emitted {ls fs : List PresenceLine} {p : ℕ} (h : LaidOut body fs)
    (hls : Emitted body ls p) : ls <+: fs := by
  rcases h.reaches hls with ⟨gs, q, hsteps, -, -, rfl⟩ | hsteps
  · exact (prefix_of_reaches hsteps).trans (List.prefix_append ..)
  · exact prefix_of_reaches hsteps

theorem exists_laidOut (body : CString) : ∃ fs, LaidOut body fs := by
  obtain ⟨fs, hfs, -⟩ := presenceLayoutBody_laidOut body (fun _ => default)
    (Nat.lt_succ_self body.strlen)
  exact ⟨fs, hfs⟩

/-- Where the loop stops, the lines stored are the first lines of the complete layout. -/
theorem LaidOut.finish_eq {fs ls : List PresenceLine} {s : LayoutState} (h : LaidOut body fs)
    (hinv : LayoutInv body s ls) (hexit : layoutStep body maxLines s = none)
    (hle : s.lineCount ≤ maxLines) :
    ls ++ s.storedBy (layoutFinish body maxLines s) = fs.take maxLines := by
  have hcount := hinv.lineCount
  rcases Nat.lt_or_ge s.lineCount maxLines with hroom | hfull
  · have hend : s.position = body.strlen := by
      rcases layoutStep_eq_none hexit with hz | hge
      · exact Nat.le_antisymm hinv.scanned.le_strlen (CString.charAt_eq_zero_iff.mp hz)
      · omega
    have hone : (s.storedBy (layoutFinish body maxLines s)).length ≤ 1 := by
      rw [LayoutState.storedBy]
      split_ifs <;> simp
    rw [h.unique (layoutFinish_laidOut hinv hend hroom), List.take_of_length_le]
    rw [List.length_append]
    omega
  · have hsame : layoutFinish body maxLines s = s := if_neg fun hdue => by omega
    rw [hsame, LayoutState.storedBy_self, List.append_nil,
      List.prefix_iff_eq_take.mp (h.prefix_of_emitted hinv.lines)]
    congr 1
    omega

/-- **A limit cuts the complete layout off**, and changes nothing before that. -/
theorem LaidOut.trueLines_eq {fs : List PresenceLine} (h : LaidOut body fs)
    (lines : ℕ → PresenceLine) (maxLines : ℕ) :
    trueLines body lines maxLines = fs.take maxLines := by
  rw [trueLines]
  split_ifs with hmax hempty
  · rw [hmax, List.take_zero]
  · have hz : body.strlen = 0 := Nat.le_zero.mp (CString.charAt_eq_zero_iff.mp hempty)
    have hscan : Scanned body 0 body.strlen := by
      rw [hz]
      exact .refl (Nat.zero_le _)
    have hlast : LaidOut body ([] ++ [⟨0, body.strlen - 0⟩]) :=
      .last .start hscan (Or.inr (Or.inl rfl))
    rw [h.unique hlast, hz, List.take_of_length_le (Nat.one_le_iff_ne_zero.mpr hmax)]
    rfl
  · exact h.finish_eq (layoutLoop_inv body lines maxLines) (layoutLoop_exits body lines maxLines)
      (layoutLoop_lineCount_le body lines maxLines)

/-- In a body that 16-bit offsets can address, the true lines are the result. -/
theorem layoutLines_eq_trueLines (lines : ℕ → PresenceLine) (maxLines : ℕ)
    (hlen : body.strlen ≤ 65535) :
    layoutLines (presenceLayoutBody (some body) (some lines) maxLines) =
      trueLines body lines maxLines := by
  obtain ⟨fs, hfs⟩ := exists_laidOut body
  rw [presenceLayoutBody_trueLines, hfs.trueLines_eq, List.map_take, hfs.map_stored hlen]

/-! ### Two limits -/

/-- A `NULL` body is laid out like an empty one. -/
theorem presenceLayoutBody_none (lines : Option (ℕ → PresenceLine)) (maxLines : ℕ) :
    presenceLayoutBody none lines maxLines = presenceLayoutBody (some default) lines maxLines := by
  have hzero : (default : CString).charAt 0 = 0 := rfl
  simp only [presenceLayoutBody, hzero, if_true]

theorem presenceLayoutBody_restUntouched (body : CString) (lines : ℕ → PresenceLine)
    (maxLines : ℕ) : ∃ filled count,
      presenceLayoutBody (some body) (some lines) maxLines = (some filled, count) ∧
        ∀ i, count ≤ i → filled i = lines i := by
  simp only [presenceLayoutBody]
  split_ifs with hmax hempty
  · exact ⟨lines, 0, rfl, fun _ _ => rfl⟩
  · refine ⟨_, 1, rfl, ?_⟩
    intro i hi
    exact Function.update_of_ne (Nat.ne_of_gt hi) _ _
  · exact ⟨_, _, rfl, layoutFinish_restUntouched (layoutLoop_restUntouched body lines maxLines)⟩

/-- The array and the count that `presence_layout_body` leaves, in terms of the complete layout. -/
theorem LaidOut.presenceLayoutBody_eq {fs : List PresenceLine} (h : LaidOut body fs)
    (lines : ℕ → PresenceLine) (maxLines : ℕ) : ∃ filled,
      presenceLayoutBody (some body) (some lines) maxLines =
          (some filled, min maxLines fs.length) ∧
        (∀ i < min maxLines fs.length, some (filled i) = (fs.map PresenceLine.stored)[i]?) ∧
        ∀ i, min maxLines fs.length ≤ i → filled i = lines i := by
  obtain ⟨filled, count, heq, hrest⟩ := presenceLayoutBody_restUntouched body lines maxLines
  have hlines := presenceLayoutBody_trueLines body lines maxLines
  rw [heq, layoutLines_some, h.trueLines_eq] at hlines
  have hcount : count = min maxLines fs.length := by
    have hlen := congrArg List.length hlines
    simpa using hlen
  subst hcount
  refine ⟨filled, heq, ?_, hrest⟩
  intro i hi
  have hget := congrArg (·[i]?) hlines
  simp only [List.getElem?_map, List.getElem?_range hi, Option.map_some] at hget
  rw [List.getElem?_map, hget,
    List.getElem?_take_of_lt (Nat.lt_of_lt_of_le hi (Nat.min_le_left ..))]

/-- What a call with a small limit leaves behind, compared with a call with a larger one. -/
structure LimitPrefix (body : Option CString) (lines lines' : ℕ → PresenceLine) (m M : ℕ) :
    Prop where
  count : (presenceLayoutBody body (some lines) m).2 =
    min m (presenceLayoutBody body (some lines') M).2
  /-- The array starts with the same lines and is untouched behind them. -/
  array : ∃ filled filled', (presenceLayoutBody body (some lines) m).1 = some filled ∧
    (presenceLayoutBody body (some lines') M).1 = some filled' ∧
    (∀ i < (presenceLayoutBody body (some lines) m).2, filled i = filled' i) ∧
    ∀ i, (presenceLayoutBody body (some lines) m).2 ≤ i → filled i = lines i

/-- **A small line buffer gets a prefix of the full layout**, for every body and any two arrays. -/
theorem presenceLayoutBody_limit (body : Option CString) (lines lines' : ℕ → PresenceLine)
    (m M : ℕ) (h : m ≤ M) : LimitPrefix body lines lines' m M := by
  have key : ∀ body : CString, LimitPrefix (some body) lines lines' m M := by
    intro body
    obtain ⟨fs, hfs⟩ := exists_laidOut body
    obtain ⟨filled, heq, hsame, hrest⟩ := hfs.presenceLayoutBody_eq lines m
    obtain ⟨filled', heq', hsame', -⟩ := hfs.presenceLayoutBody_eq lines' M
    constructor
    case count =>
      rw [heq, heq']
      show min m fs.length = min m (min M fs.length)
      omega
    case array =>
      refine ⟨filled, filled', by rw [heq], by rw [heq'], ?_, ?_⟩
      · rw [heq]
        intro i hi
        have hi' : i < min M fs.length := by
          simp only at hi
          omega
        exact Option.some.inj ((hsame i hi).trans (hsame' i hi').symm)
      · rw [heq]
        exact hrest
  cases body with
  | none =>
    obtain ⟨hcount, harray⟩ := key default
    simp only [← presenceLayoutBody_none] at hcount harray
    exact ⟨hcount, harray⟩
  | some body => exact key body

theorem presenceLayoutBody_limit_newlineBody :
    LimitPrefix (some newlineBody) (fun _ => default) (fun _ => ⟨7, 7⟩) 2 16 :=
  presenceLayoutBody_limit (some newlineBody) (fun _ => default) (fun _ => ⟨7, 7⟩) 2 16 (by decide)

end PresenceDevice
