import ClearSign.Decimal.FixedPoint
import ClearSign.Proofs.Decimal.Text
/-!
# What `placePoint` leaves in its buffer

Each step of the routine is read as an equation between buffers that are cut at the bytes it moves.
Put together they tell what becomes of any buffer with a zero byte in it:

* `placePoint_refused`: the first byte after the leading zeros has to be a digit;
* `placePoint_placed`: then the run loses those zeros and gets its point, if there is room, whatever
  the bytes after that first one are;
* `placePoint_digits`: for a run of digits this is the text of the number it spells.
-/

namespace ClearSign.Decimal

/-! ## Single steps -/

theorem fill_tail (front tail : Bytes) (b : UInt8) :
    Checked.fill (front ++ tail) front.length (front ++ tail).length b =
      .ok (front ++ List.replicate tail.length b) := by
  rw [Checked.fill_eq_ok b (by simp) (Nat.le_refl _)]
  simp

theorem moveToFront_eq (zeros run rest : Bytes) :
    moveToFront (zeros ++ run ++ rest) zeros.length (zeros.length + run.length) =
      .ok (run ++ List.replicate (zeros.length + rest.length) 0, run.length) := by
  have hmove : Checked.move (zeros ++ run ++ rest) zeros.length (zeros.length + run.length) 0 =
      .ok (run ++ (zeros ++ run ++ rest).drop run.length) := by
    have htake : (zeros ++ run ++ rest).take (zeros.length + run.length) = zeros ++ run :=
      List.take_left' (by simp)
    rw [Checked.move_eq_ok (by omega) (by simp) (by simp; omega), Nat.zero_add,
      Nat.add_sub_cancel_left, htake, List.drop_left, List.take_zero, List.nil_append]
  have hlen : ((zeros ++ run ++ rest).drop run.length).length = zeros.length + rest.length := by
    simp only [List.length_drop, List.length_append]
    omega
  have hsub : Checked.sub (zeros.length + run.length) zeros.length = .ok run.length := by
    rw [Checked.sub_eq_ok (by omega), Nat.add_sub_cancel_left]
  rw [moveToFront, hmove]
  simp only [Checked.ok_bind, hsub, fill_tail, hlen]
  rfl

theorem keepFirst_eq (b : UInt8) (rest : Bytes) :
    keepFirst (b :: rest) = .ok (b :: List.replicate rest.length 0, 1) := by
  have hfill : Checked.fill (b :: rest) 1 (b :: rest).length 0 =
      .ok (b :: List.replicate rest.length 0) := fill_tail [b] rest 0
  rw [keepFirst, hfill]
  rfl

theorem padFront_eq {ds : Bytes} {room places : Nat} (hsize : ds.length ≤ places)
    (hroom : places + 1 ≤ ds.length + room) (hword : places + 1 < 2 ^ 64) :
    padFront (ds ++ List.replicate room 0) ds.length places =
      .ok (List.replicate (places + 1 - ds.length) (digit 0) ++ ds ++
        List.replicate (room - (places + 1 - ds.length)) 0, places + 1) := by
  have hpadding : places - ds.length + 1 = places + 1 - ds.length := by omega
  have hadd : Checked.add Checked.addressBits (places - ds.length) 1 =
      .ok (places + 1 - ds.length) := by
    rw [Checked.add_eq_ok (by unfold Checked.addressBits; omega), hpadding]
  have hsum : Checked.add Checked.addressBits ds.length (places + 1 - ds.length) =
      .ok (places + 1) := by
    rw [Checked.add_eq_ok (by unfold Checked.addressBits; omega), Nat.add_sub_cancel' (by omega)]
  have hmove : Checked.move (ds ++ List.replicate room 0) 0 ds.length (places + 1 - ds.length) =
      .ok ((ds ++ List.replicate room 0).take (places + 1 - ds.length) ++ ds ++
        List.replicate (room - (places + 1 - ds.length)) 0) := by
    have hdrop : (ds ++ List.replicate room (0 : UInt8)).drop
        (places + 1 - ds.length + ds.length) =
          List.replicate (room - (places + 1 - ds.length)) 0 := by
      rw [Nat.add_comm, List.drop_append]
      simp
    rw [Checked.move_eq_ok (by omega) (by simp) (by simp; omega), Nat.sub_zero, hdrop,
      List.take_left, List.drop_zero]
  have hfront : ((ds ++ List.replicate room (0 : UInt8)).take (places + 1 - ds.length)).length =
      places + 1 - ds.length := by
    rw [List.length_take, List.length_append, List.length_replicate]
    omega
  rw [padFront, Checked.sub_eq_ok hsize]
  simp only [Checked.ok_bind, hadd, hmove, hsum]
  rw [Checked.fill_eq_ok _ (Nat.zero_le _) (by simp only [List.length_append, hfront]; omega)]
  simp only [Checked.ok_bind, List.take_zero, List.nil_append, Nat.sub_zero, List.append_assoc,
    List.drop_left' hfront]
  rfl

theorem insertPoint_eq {whole places : Bytes} (room : Nat)
    (hword : whole.length + places.length + 1 < 2 ^ 64) :
    insertPoint (whole ++ places ++ List.replicate (room + 1) 0)
        (whole.length + places.length) places.length =
      .ok (whole ++ point :: places ++ List.replicate room 0,
        whole.length + places.length + 1) := by
  have hsub : Checked.sub (whole.length + places.length) places.length = .ok whole.length := by
    rw [Checked.sub_eq_ok (by omega), Nat.add_sub_cancel]
  have hadd : Checked.add Checked.addressBits whole.length 1 = .ok (whole.length + 1) :=
    Checked.add_eq_ok (by unfold Checked.addressBits; omega)
  have hsum : Checked.add Checked.addressBits (whole.length + places.length) 1 =
      .ok (whole.length + places.length + 1) :=
    Checked.add_eq_ok (by unfold Checked.addressBits; omega)
  -- the cell that the point takes holds the first of the places, or the zero behind the digits
  obtain ⟨b, tail, htail⟩ : ∃ b tail, places ++ List.replicate (room + 1) (0 : UInt8) = b :: tail :=
    List.exists_cons_of_ne_nil (by simp [List.replicate_succ])
  have hmove : Checked.move (whole ++ places ++ List.replicate (room + 1) 0) whole.length
      (whole.length + places.length) (whole.length + 1) =
        .ok (whole ++ b :: places ++ List.replicate room 0) := by
    have htake : (whole ++ places ++ List.replicate (room + 1) 0).take (whole.length + 1) =
        whole ++ [b] := by
      rw [List.append_assoc, htail, List.take_length_add_append]
      rfl
    have hdrop : (whole ++ places ++ List.replicate (room + 1) (0 : UInt8)).drop
        (whole.length + 1 + places.length) = List.replicate room 0 := by
      have hlen : whole.length + 1 + places.length = (whole ++ places).length + 1 := by
        rw [List.length_append]
        omega
      rw [hlen, List.drop_length_add_append, List.drop_replicate, Nat.add_sub_cancel]
    rw [Checked.move_eq_ok (by omega) (by simp) (by simp; omega), Nat.add_sub_cancel_left, htake,
      hdrop, List.take_left' (by simp), List.drop_left]
    simp
  have hset : Checked.set (whole ++ b :: places ++ List.replicate room 0) whole.length point =
      .ok (whole ++ point :: places ++ List.replicate room 0) := by
    rw [Checked.set_eq_ok _ (by simp), List.append_assoc, List.set_append_right _ _ (Nat.le_refl _),
      Nat.sub_self]
    simp
  rw [insertPoint, hsub]
  simp only [Checked.ok_bind, hadd, hmove, hset, hsum]
  rfl

/-! ## A point among any bytes -/

/-- The bytes with a point in front of the last `places`, and zeros in front of them all where there
are too few for one to stand before the point. -/
def pointed (ds : Bytes) (places : Nat) : Bytes :=
  if places = 0 then ds
  else
    let whole := ds.leftpad (places + 1) (digit 0)
    whole.take (whole.length - places) ++ point :: whole.drop (whole.length - places)

/-- What becomes of a buffer of `size` cells that has these bytes at its front and zeros after them:
there has to be room for the bytes, the point and a zero byte, but not where no point is asked for. -/
def placed (ds : Bytes) (size places : Nat) : Written FixedPointError Bytes :=
  if places = 0 ∨ max ds.length (places + 1) + 2 ≤ size then
    .done ((pointed ds places).rightpad size 0) (pointed ds places)
  else .failed (ds.rightpad size 0) .bufferTooShort

variable {ds run rest : Bytes} {places size : Nat}

theorem outcome_placed (ds : Bytes) (size places : Nat) :
    (placed ds size places).outcome =
      if places = 0 ∨ max ds.length (places + 1) + 2 ≤ size then .ok (pointed ds places)
      else .error .bufferTooShort := by
  unfold placed
  split
  · rfl
  · rfl

theorem pointed_zero (ds : Bytes) : pointed ds 0 = ds := if_pos rfl

theorem length_pointed (h : places ≠ 0) :
    (pointed ds places).length = max ds.length (places + 1) + 1 := by
  rw [pointed, if_neg h]
  simp only [List.length_append, List.length_cons, List.length_take, List.length_drop,
    List.length_leftpad]
  omega

theorem insertPoint_of_le (room : Nat) (hplaces : places ≤ ds.length)
    (hword : ds.length + 1 < 2 ^ 64) :
    insertPoint (ds ++ List.replicate (room + 1) 0) ds.length places =
      .ok (ds.take (ds.length - places) ++ point :: ds.drop (ds.length - places) ++
        List.replicate room 0, ds.length + 1) := by
  have htake : (ds.take (ds.length - places)).length = ds.length - places := by
    rw [List.length_take]
    omega
  have hdrop : (ds.drop (ds.length - places)).length = places := by
    rw [List.length_drop]
    omega
  have hsize : ds.length - places + places = ds.length := Nat.sub_add_cancel hplaces
  have hword : (ds.take (ds.length - places)).length + (ds.drop (ds.length - places)).length + 1 <
      2 ^ 64 := by omega
  have hinsert := insertPoint_eq room hword
  rw [List.take_append_drop, htake, hdrop, hsize] at hinsert
  exact hinsert

theorem padFront_leftpad (hlen : ds.length ≤ places) (hroom : places + 1 ≤ size)
    (hword : places + 1 < 2 ^ 64) :
    padFront (ds.rightpad size 0) ds.length places =
      .ok ((ds.leftpad (places + 1) (digit 0)).rightpad size 0, places + 1) := by
  have hcells : places + 1 ≤ ds.length + (size - ds.length) := by omega
  have hpad := padFront_eq hlen hcells hword
  have hrest : size - ds.length - (places + 1 - ds.length) =
      size - (ds.leftpad (places + 1) (digit 0)).length := by
    rw [List.length_leftpad]
    omega
  rw [hrest] at hpad
  exact hpad

theorem insertPoint_leftpad (hp : places ≠ 0) (hfits : max ds.length (places + 1) + 2 ≤ size)
    (hsize : size < 2 ^ 64) :
    insertPoint ((ds.leftpad (places + 1) (digit 0)).rightpad size 0)
        (max ds.length (places + 1)) places =
      .ok ((pointed ds places).rightpad size 0, (pointed ds places).length) := by
  have hwhole : (ds.leftpad (places + 1) (digit 0)).length = max ds.length (places + 1) := by
    rw [List.length_leftpad, Nat.max_comm]
  have hpointed : (pointed ds places).length = max ds.length (places + 1) + 1 := length_pointed hp
  -- one of the cells that are left once the zeros stand in front is the point's
  obtain ⟨room, hroom⟩ : ∃ room, size - max ds.length (places + 1) = room + 1 :=
    ⟨size - max ds.length (places + 1) - 1, by omega⟩
  have hrest : size - (pointed ds places).length = room := by omega
  have hplaces : places ≤ (ds.leftpad (places + 1) (digit 0)).length := by omega
  have hinsert := insertPoint_of_le room hplaces (by omega)
  rw [List.rightpad, List.rightpad, hrest, hpointed, ← hwhole, pointed, if_neg hp, ← hinsert,
    hwhole, hroom]

theorem take_rightpad (ds : Bytes) (size : Nat) :
    Checked.take (ds.rightpad size 0) ds.length = .ok ds := by
  rw [List.rightpad, Checked.take_eq_ok (by simp), List.take_left]

theorem pointDigits_eq (hlen : ds.length ≤ size) (hplaces : places + 3 < 2 ^ 64)
    (hsize : size < 2 ^ 63) :
    pointDigits (ds.rightpad size 0) ds.length places = .ok (placed ds size places) := by
  have hlength : (ds.rightpad size (0 : UInt8)).length = size := by
    rw [List.length_rightpad]
    omega
  unfold placed
  by_cases hp : places = 0
  · subst hp
    rw [pointDigits, if_pos rfl, take_rightpad, if_pos (Or.inl rfl), pointed_zero]
    rfl
  · have hleast : Checked.add Checked.addressBits places 1 = .ok (places + 1) :=
      Checked.add_eq_ok (by unfold Checked.addressBits; omega)
    have hneeded : Checked.add Checked.addressBits (max ds.length (places + 1)) 2 =
        .ok (max ds.length (places + 1) + 2) :=
      Checked.add_eq_ok (by unfold Checked.addressBits; omega)
    rw [pointDigits, if_neg hp, hleast]
    simp only [Checked.ok_bind, hneeded, hlength]
    by_cases hfits : max ds.length (places + 1) + 2 ≤ size
    · have hinsert := insertPoint_leftpad hp hfits (by omega)
      rw [if_neg (by omega), if_pos (Or.inr hfits)]
      by_cases hlt : ds.length < places + 1
      · have hmax : max ds.length (places + 1) = places + 1 := Nat.max_eq_right (by omega)
        rw [hmax] at hinsert
        rw [if_pos hlt, padFront_leftpad (by omega) (by omega) (by omega)]
        simp only [Checked.ok_bind, hinsert, take_rightpad]
        rfl
      · have hmax : max ds.length (places + 1) = ds.length := Nat.max_eq_left (by omega)
        have hwhole : ds.leftpad (places + 1) (digit 0) = ds := by
          have hnone : places + 1 - ds.length = 0 := by omega
          rw [List.leftpad, hnone]
          rfl
        rw [hmax, hwhole] at hinsert
        rw [if_neg hlt, pure_bind]
        simp only [Checked.ok_bind, hinsert, take_rightpad]
        rfl
    · rw [if_pos (by omega), if_neg (by omega)]
      rfl

/-! ## Leading zeros -/

/-- The run without its leading zeros; where there is nothing else, one of them is kept. -/
def withoutZeros : Bytes → Bytes
  | [] => [digit 0]
  | d :: ds => if d = digit 0 then withoutZeros ds else d :: ds

theorem withoutZeros_append (k : Nat) (ds : Bytes) :
    withoutZeros (List.replicate k (digit 0) ++ ds) = withoutZeros ds := by
  induction k with
  | zero => rfl
  | succ k ih =>
      rw [List.replicate_succ, List.cons_append, withoutZeros, if_pos rfl, ih]

theorem firstNonzero_append (k : Nat) (ds : Bytes) (start : Nat) :
    firstNonzero (List.replicate k (digit 0) ++ ds) start = firstNonzero ds (start + k) := by
  induction k generalizing start with
  | zero => rfl
  | succ k ih =>
      have hstep : firstNonzero (digit 0 :: (List.replicate k (digit 0) ++ ds)) start =
          firstNonzero (List.replicate k (digit 0) ++ ds) (start + 1) := rfl
      rw [List.replicate_succ, List.cons_append, hstep, ih, Nat.add_assoc, Nat.add_comm 1 k]

/-- A run is zeros alone, or zeros and then a byte that is something else. -/
theorem leadingZeros_cases (run : Bytes) :
    (∃ k, run = List.replicate k (digit 0)) ∨
      ∃ k b more, run = List.replicate k (digit 0) ++ b :: more ∧ b ≠ digit 0 := by
  induction run with
  | nil => exact Or.inl ⟨0, rfl⟩
  | cons b run ih =>
      by_cases hb : b = digit 0
      · rcases ih with ⟨k, hrun⟩ | ⟨k, c, more, hrun, hne⟩
        · exact Or.inl ⟨k + 1, by rw [List.replicate_succ, ← hrun, hb]⟩
        · exact Or.inr ⟨k + 1, c, more,
            by rw [List.replicate_succ, List.cons_append, ← hrun, hb], hne⟩
      · exact Or.inr ⟨0, b, run, rfl, hb⟩

/-! ## Any buffer with a zero byte -/

/-- An empty run is first made a single zero, in the cell of the zero byte that ends it. -/
theorem placePoint_zero_cons (rest : Bytes) (places : Nat) :
    placePoint (0 :: rest) places =
      pointDigits ([digit 0].rightpad (rest.length + 1) 0) 1 places := by
  have hset : Checked.set (0 :: rest) 0 (digit 0) = .ok (digit 0 :: rest) :=
    Checked.set_eq_ok _ (by simp)
  have htake : Checked.take (digit 0 :: rest) 1 = .ok [digit 0] :=
    Checked.take_eq_ok (by simp)
  have hfirst : firstNonzero [digit 0] 0 = .ok none := rfl
  have hzero : Bytes.untilZero (0 :: rest) = [] :=
    Bytes.untilZero_append_zero List.not_mem_nil rest
  have hlength : 0 ≠ (0 :: rest).length := by simp
  rw [placePoint]
  simp only [List.isEmpty_cons, Bool.false_eq_true, if_false, hzero, List.length_nil, if_true,
    if_neg hlength, hset, Checked.ok_bind, pure_bind, htake, hfirst, keepFirst_eq]
  rfl

/-- What the first byte after the leading zeros decides. -/
theorem placePoint_of_ne_nil (hz : 0 ∉ run) (hne : run ≠ []) (rest : Bytes) (places : Nat) :
    placePoint (run ++ 0 :: rest) places =
      match firstNonzero run 0 with
      | .error e => .ok (.failed (run ++ 0 :: rest) e)
      | .ok (some start) =>
        moveToFront (run ++ 0 :: rest) start run.length >>= fun r => pointDigits r.1 r.2 places
      | .ok none => keepFirst (run ++ 0 :: rest) >>= fun r => pointDigits r.1 r.2 places := by
  have hempty : (run ++ 0 :: rest).isEmpty = false := by simp
  have hlt : run.length ≠ (run ++ 0 :: rest).length := by simp
  have hpos : run.length ≠ 0 := fun h => hne (List.length_eq_zero_iff.1 h)
  have htake : Checked.take (run ++ 0 :: rest) run.length = .ok run := by
    rw [Checked.take_eq_ok (by simp), List.take_left]
  rw [placePoint, hempty]
  simp only [Bool.false_eq_true, if_false, Bytes.untilZero_append_zero hz, if_neg hlt, if_neg hpos,
    pure_bind, htake, Checked.ok_bind]
  cases firstNonzero run 0 with
  | error e => rfl
  | ok first =>
      cases first with
      | none => rfl
      | some start => rfl

theorem zero_notMem_zeros (k : Nat) : (0 : UInt8) ∉ List.replicate k (digit 0) := by
  intro h
  cases List.eq_of_mem_replicate h

theorem placePoint_refused {b : UInt8} {more : Bytes} (hb : isDigit b = false)
    (hz : 0 ∉ b :: more) (k : Nat) (rest : Bytes) (places : Nat) :
    placePoint (List.replicate k (digit 0) ++ b :: more ++ 0 :: rest) places =
      .ok (.failed (List.replicate k (digit 0) ++ b :: more ++ 0 :: rest) (.notADigit k)) := by
  have hrun : 0 ∉ List.replicate k (digit 0) ++ b :: more := by
    rw [List.mem_append]
    exact not_or_intro (zero_notMem_zeros k) hz
  have hfirst : firstNonzero (List.replicate k (digit 0) ++ b :: more) 0 =
      .error (.notADigit k) := by
    rw [firstNonzero_append, Nat.zero_add, firstNonzero, hb]
    rfl
  rw [placePoint_of_ne_nil hrun (by simp), hfirst]

theorem placePoint_zeros (k : Nat) (hsize : k + rest.length + 1 < 2 ^ 63)
    (hplaces : places + 3 < 2 ^ 64) :
    placePoint (List.replicate k (digit 0) ++ 0 :: rest) places =
      .ok (placed [digit 0] (k + rest.length + 1) places) := by
  have hpoint : pointDigits ([digit 0].rightpad (k + rest.length + 1) 0) 1 places =
      .ok (placed [digit 0] (k + rest.length + 1) places) :=
    pointDigits_eq (by simp) hplaces hsize
  cases k with
  | zero =>
      rw [Nat.zero_add] at hpoint ⊢
      rw [← hpoint]
      exact placePoint_zero_cons rest places
  | succ k =>
      have hfirst : firstNonzero (List.replicate (k + 1) (digit 0)) 0 = .ok none := by
        rw [← List.append_nil (List.replicate _ _), firstNonzero_append]
        rfl
      have hkeep : keepFirst (List.replicate (k + 1) (digit 0) ++ 0 :: rest) =
          .ok ([digit 0].rightpad (k + 1 + rest.length + 1) 0, 1) := by
        have hrest : (List.replicate k (digit 0) ++ 0 :: rest).length = k + 1 + rest.length := by
          simp only [List.length_append, List.length_replicate, List.length_cons]
          omega
        rw [List.replicate_succ, List.cons_append, keepFirst_eq, hrest]
        rfl
      rw [placePoint_of_ne_nil (zero_notMem_zeros (k + 1)) (List.cons_ne_nil _ _), hfirst]
      simp only [hkeep, Checked.ok_bind]
      exact hpoint

/-- The bytes after the first digit that counts are taken along, whatever they are. -/
theorem placePoint_zeros_append {k : Nat} {d : UInt8} {more : Bytes} (hd : isDigit d = true)
    (hne : d ≠ digit 0) (hz : 0 ∉ more)
    (hsize : (List.replicate k (digit 0) ++ d :: more ++ 0 :: rest).length < 2 ^ 63)
    (hplaces : places + 3 < 2 ^ 64) :
    placePoint (List.replicate k (digit 0) ++ d :: more ++ 0 :: rest) places =
      .ok (placed (d :: more) (List.replicate k (digit 0) ++ d :: more ++ 0 :: rest).length
        places) := by
  have hrun : 0 ∉ List.replicate k (digit 0) ++ d :: more := by
    rw [List.mem_append, List.mem_cons]
    exact not_or_intro (zero_notMem_zeros k)
      (not_or_intro (fun h => ne_zero_of_isDigit hd h.symm) hz)
  have hfirst : firstNonzero (List.replicate k (digit 0) ++ d :: more) 0 = .ok (some k) := by
    rw [firstNonzero_append, Nat.zero_add, firstNonzero, hd]
    exact if_pos hne
  have hmove := moveToFront_eq (List.replicate k (digit 0)) (d :: more) (0 :: rest)
  have hroom : (List.replicate k (digit 0)).length + (0 :: rest).length =
      (List.replicate k (digit 0) ++ d :: more ++ 0 :: rest).length - (d :: more).length := by
    simp only [List.length_append]
    omega
  rw [hroom, List.length_replicate] at hmove
  rw [placePoint_of_ne_nil hrun (by simp), hfirst, List.length_append, List.length_replicate]
  simp only [hmove, Checked.ok_bind]
  exact pointDigits_eq (by simp; omega) hplaces hsize

theorem placePoint_placed (hz : 0 ∉ run)
    (hd : ∀ d, (withoutZeros run).head? = some d → isDigit d = true)
    (hsize : (run ++ 0 :: rest).length < 2 ^ 63) (hplaces : places + 3 < 2 ^ 64) :
    placePoint (run ++ 0 :: rest) places =
      .ok (placed (withoutZeros run) (run ++ 0 :: rest).length places) := by
  rcases leadingZeros_cases run with ⟨k, rfl⟩ | ⟨k, d, more, rfl, hne⟩
  · have hwithout : withoutZeros (List.replicate k (digit 0)) = [digit 0] := by
      rw [← List.append_nil (List.replicate _ _), withoutZeros_append]
      rfl
    have hlength : (List.replicate k (digit 0) ++ 0 :: rest).length = k + rest.length + 1 := by
      simp only [List.length_append, List.length_replicate, List.length_cons]
      omega
    rw [hlength] at hsize ⊢
    rw [hwithout]
    exact placePoint_zeros k hsize hplaces
  · have hwithout : withoutZeros (List.replicate k (digit 0) ++ d :: more) = d :: more := by
      rw [withoutZeros_append, withoutZeros, if_neg hne]
    rw [hwithout] at hd ⊢
    have hmore : 0 ∉ more := fun h => hz (by simp [h])
    exact placePoint_zeros_append (hd d rfl) hne hmore hsize hplaces

/-! ## Runs of digits -/

/-- The room that `placePoint` asks for: the digits, the point and a zero byte. -/
def pointedSize (n places : Nat) : Nat := max (text n).length (places + 1) + 2

theorem pointed_text (n places : Nat) : pointed (text n) places = fixed n places := by
  by_cases hp : places = 0
  · subst hp
    exact (if_pos rfl).trans (if_pos rfl).symm
  · have hwhole : (text n).leftpad (places + 1) (digit 0) =
        text (n / 10 ^ places) ++ textWidth places (n % 10 ^ places) := padded_eq n places
    have hfront : (text (n / 10 ^ places) ++ textWidth places (n % 10 ^ places)).length - places =
        (text (n / 10 ^ places)).length := by
      rw [List.length_append, length_textWidth, Nat.add_sub_cancel]
    rw [pointed, if_neg hp, fixed, if_neg hp]
    simp only [hwhole, hfront, List.take_left, List.drop_left]

theorem length_fixed {n places : Nat} (h : places ≠ 0) :
    (fixed n places).length + 1 = pointedSize n places := by
  rw [← pointed_text, length_pointed h]
  rfl

theorem withoutZeros_eq_text (hd : ∀ b ∈ run, isDigit b = true) :
    withoutZeros run = text (read run) := by
  induction run with
  | nil => exact (text_of_lt (n := 0) (by decide)).symm
  | cons b run ih =>
      rw [withoutZeros]
      split
      · rename_i hb
        have hread : read (b :: run) = read run := by
          rw [hb]
          exact read_replicate_append 1 run
        rw [hread]
        exact ih fun b' hb' => hd b' (List.mem_cons_of_mem _ hb')
      · rename_i hb
        exact (text_read hd hb).symm

theorem placePoint_digits (hd : ∀ b ∈ run, isDigit b = true)
    (hsize : (run ++ 0 :: rest).length < 2 ^ 63) (hplaces : places + 3 < 2 ^ 64) :
    placePoint (run ++ 0 :: rest) places =
      .ok (placed (text (read run)) (run ++ 0 :: rest).length places) := by
  have hz : 0 ∉ run := fun h => ne_zero_of_isDigit (hd 0 h) rfl
  rw [← withoutZeros_eq_text hd]
  apply placePoint_placed hz _ hsize hplaces
  intro d hhead
  rw [withoutZeros_eq_text hd] at hhead
  exact isDigit_of_mem_text (List.mem_of_mem_head? hhead)

end ClearSign.Decimal
