/-
# The state file is read as it was written

`komodo_parsestatefiledata` of `src/src/komodo.cpp` against `operator<<` of
`src/src/komodo_structs.cpp`.

The constructor of an event reads the fields in the order in which they were written, and takes
those that depend on a condition under the letter that was written under this condition.  From the
fields the events, and from the events the whole file (`readData_written`).
-/

import Komodo.StateFile.Readers

namespace Komodo
namespace StateFile

open Buffers List

/-! ### Fields -/

theorem readsAt_memRead {n : ℕ} {written : Bytes} (h : written.length = n) :
    ReadsAt (memRead n) written written := by
  intro before after
  subst h
  have hle : before.length + written.length ≤ (before ++ (written ++ after)).length := by
    simp only [length_append]
    omega
  rw [memRead, if_pos hle, drop_left, take_left]

theorem readsAt_memByte (behind b : UInt8) : ReadsAt (memByte behind) [b] b := by
  intro before after
  have hget : (before ++ ([b] ++ after))[before.length]? = some b := by
    rw [getElem?_append_right le_rfl, Nat.sub_self]
    rfl
  rw [memByte, hget]
  rfl

theorem readsAt_bytesLeft {α : Type} {f : ℕ → FileReader α} {written : Bytes} {a : α}
    (h : ∀ left, written.length ≤ left → ReadsAt (f left) written a) :
    ReadsAt (bytesLeft >>= f) written a := by
  intro before after
  rw [bind_run]
  show f _ _ _ = _
  refine h _ ?_ before after
  simp only [length_append]
  omega

theorem int32Of_intBytes {v : ℤ} (h : IntRange 4 v) : int32Of (intBytes 4 v) = v := by
  have hlow : -2 ^ 31 ≤ v := h.1
  have hhigh : v < 2 ^ 31 := h.2
  have hpos : 0 ≤ v % 2 ^ 32 := Int.emod_nonneg v (by decide)
  have hlt : (v % 2 ^ 32).toNat < 256 ^ 4 := by
    have := Int.emod_lt_of_pos v (show (0 : ℤ) < 2 ^ 32 by decide)
    omega
  have hread : fromLE (leBytes 4 (v % 2 ^ 32).toNat) = (v % 2 ^ 32).toNat :=
    fromLE_leBytes_of_lt hlt
  have hmod : (v % 2 ^ 32).bmod (2 ^ 32) = v.bmod (2 ^ 32) := by
    exact_mod_cast Int.emod_bmod v (2 ^ 32)
  unfold int32Of intBytes
  rw [hread, Int.toNat_of_nonneg hpos, hmod]
  exact Int.bmod_eq_of_le (by omega) (by omega)

theorem readsAt_int32 (v : ℤ) : ReadsAt (memRead 4) (intBytes 4 v) (intBytes 4 v) :=
  readsAt_memRead (length_leBytes _ _)

theorem readsAt_uint (k n : ℕ) : ReadsAt (memRead k) (leBytes k n) (leBytes k n) :=
  readsAt_memRead (length_leBytes _ _)

theorem readsAt_uint256 (h : Uint256) : ReadsAt (memRead 32) (uint256Bytes h) (uint256Bytes h) :=
  readsAt_memRead (length_leBytes 32 h)

/-! ### Events -/

theorem fill_take {n k : ℕ} {a : ByteArr n} (h : a.1.drop k = replicate (n - k) 0) :
    fill n (a.1.take k) = a := by
  refine Subtype.ext ?_
  show (a.1.take k ++ replicate n 0).take n = a.1
  have hlen : (a.1.take k).length = min k n := by rw [length_take, a.2]
  rw [take_append, hlen, take_replicate, take_of_length_le (by omega)]
  conv_rhs => rw [← take_append_drop k a.1, h]
  congr 2
  omega

theorem readsAt_pubkeys (behind : UInt8) {evt : PubkeysEvent} (hnum : evt.num ≤ 64)
    (hbehind : evt.pubkeys.1.drop (33 * evt.num) = replicate (64 * 33 - 33 * evt.num) 0) :
    ReadsAt (pubkeysOfData behind evt.height)
      (leBytes 1 evt.num ++ evt.pubkeys.1.take (33 * evt.num)) evt := by
  have hbyte : leBytes 1 evt.num = [UInt8.ofNat evt.num] := by simp [leBytes]
  have hnat : (UInt8.ofNat evt.num).toNat = evt.num := by
    rw [UInt8.toNat_ofNat']
    omega
  have hkeys : (evt.pubkeys.1.take (33 * evt.num)).length = 33 * evt.num := by
    rw [length_take, evt.pubkeys.2]
    omega
  have hpure := (readsAt_memRead hkeys).bind_pure fun pubkeys =>
    ({ height := evt.height, num := evt.num, pubkeys := fill (64 * 33) pubkeys } : PubkeysEvent)
  rw [fill_take hbehind] at hpure
  rw [hbyte]
  refine (readsAt_memByte behind _).bind ?_
  rw [hnat, if_neg (by omega)]
  exact hpure

theorem readsAt_notarized {evt : NotarizedEvent} {dest : Bytes} (h : evt.InRange)
    (hdest : evt.dest = copyDest dest) :
    ReadsAt (notarizedOfData evt.height dest evt.hasMoM)
      (intBytes 4 evt.notarizedheight ++ uint256Bytes evt.blockhash ++ uint256Bytes evt.desttxid
        ++ if evt.hasMoM then uint256Bytes evt.MoM ++ intBytes 4 evt.MoMdepth else [])
      (if evt.hasMoM then evt else { evt with MoM := 0, MoMdepth := 0 }) := by
  obtain ⟨-, hblock, hdesttxid, hMoM, hntz, hdepth⟩ := h
  simp only [append_assoc]
  refine (readsAt_int32 _).bind ((readsAt_uint256 _).bind ((readsAt_uint256 _).bind ?_))
  rw [int32Of_intBytes hntz, fromLE_uint256Bytes hblock, fromLE_uint256Bytes hdesttxid,
    NotarizedEvent.ofHeight, ← hdest]
  cases evt.hasMoM with
  | true =>
    refine (readsAt_uint256 _).bind ?_
    have hpure := (readsAt_int32 evt.MoMdepth).bind_pure fun MoMdepth =>
      ({ evt with MoM := fromLE (uint256Bytes evt.MoM), MoMdepth := int32Of MoMdepth } :
        NotarizedEvent)
    rw [fromLE_uint256Bytes hMoM, int32Of_intBytes hdepth] at hpure
    rw [fromLE_uint256Bytes hMoM]
    exact hpure
  | false => exact readsAt_pure _

theorem readsAt_kmdheight {evt : KmdheightEvent} (hk : IntRange 4 evt.kheight)
    (ht : evt.timestamp < 256 ^ 4) :
    ReadsAt (kmdheightOfData evt.height (evt.timestamp ≠ 0))
      (intBytes 4 evt.kheight ++ if 0 < evt.timestamp then leBytes 4 evt.timestamp else []) evt := by
  obtain ⟨height, kheight, timestamp⟩ := evt
  refine (readsAt_int32 _).bind ?_
  rw [int32Of_intBytes hk]
  by_cases hzero : timestamp = 0
  · subst hzero
    exact readsAt_pure _
  · have hpure := (readsAt_uint 4 timestamp).bind_pure fun timestamp =>
      ({ height, kheight, timestamp := fromLE timestamp } : KmdheightEvent)
    rw [fromLE_leBytes_of_lt ht] at hpure
    simp only [ne_eq, hzero, not_false_iff, decide_true, if_true, if_pos (Nat.pos_of_ne_zero hzero)]
    exact hpure

theorem readsAt_opreturn {evt : OpreturnEvent} (htxid : evt.txid < 2 ^ 256)
    (hvout : evt.vout < 256 ^ 2) (hvalue : evt.value < 256 ^ 8) (hlen : evt.opret.length < 65536) :
    ReadsAt (opreturnOfData evt.height)
      (uint256Bytes evt.txid ++ leBytes 2 evt.vout ++ leBytes 8 evt.value
        ++ leBytes 2 evt.opret.length ++ evt.opret) evt := by
  simp only [append_assoc]
  refine (readsAt_uint256 _).bind ((readsAt_uint 2 _).bind ((readsAt_uint 8 _).bind
    ((readsAt_uint 2 _).bind ?_)))
  rw [fromLE_uint256Bytes htxid, fromLE_leBytes_of_lt hvout, fromLE_leBytes_of_lt hvalue,
    fromLE_leBytes_of_lt hlen]
  refine readsAt_bytesLeft fun left hleft => ?_
  rw [if_pos hleft]
  exact (readsAt_memRead rfl).bind_pure fun opret => { evt with opret }

theorem readsAt_pricefeed {evt : PricefeedEvent} (hnum : evt.num = 35)
    (hlen : evt.prices.length = 4 * 35) :
    ReadsAt (pricefeedOfData evt.height) (leBytes 1 evt.num ++ evt.prices.take (4 * evt.num))
      evt := by
  obtain ⟨height, num, prices⟩ := evt
  simp only at hnum hlen
  subst hnum
  refine (readsAt_uint 1 35).bind ?_
  rw [fromLE_leBytes_of_lt (by omega), if_pos rfl, take_of_length_le hlen.le]
  exact (readsAt_memRead hlen).bind_pure fun prices =>
    ({ height, num := 35, prices } : PricefeedEvent)

/-- **An event is read as it was written.** -/
theorem readsAt_write (behind : UInt8) {dest : Bytes} {evt : Event} (h : evt.Written dest) :
    ReadsAt (parseStateFileData behind dest) evt.write (some evt.asRead) := by
  have hparse : ∀ {letter : Char} {height : ℤ} {body : Bytes} {e : Event}, IntRange 4 height →
      ReadsAt (recordOfData behind dest [letter.toUInt8] height) body (some e) →
      ReadsAt (parseStateFileData behind dest) (header letter height ++ body) (some e) := by
    intro letter height body e hheight hrecord
    refine (readsAt_memRead (show [letter.toUInt8].length = 1 from rfl)).bind ((readsAt_int32 height).bind ?_)
    rwa [int32Of_intBytes hheight]
  cases evt with
  | pubkeys evt =>
    obtain ⟨hheight, hnum, hbehind⟩ := h
    have hbody := (readsAt_pubkeys behind hnum hbehind).map Event.pubkeys
    show ReadsAt _ (header 'P' evt.height ++ _ ++ _) _
    rw [append_assoc]
    exact hparse hheight (hbody.map some)
  | notarized evt =>
    obtain ⟨hrange, hdest⟩ := h
    have hbody := ((readsAt_notarized hrange hdest).map Event.notarized).map some
    show ReadsAt _ (header (if evt.hasMoM then 'M' else 'N') evt.height ++ _ ++ _ ++ _ ++ _) _
    simp only [append_assoc] at hbody ⊢
    refine hparse hrange.1 ?_
    simp only [Event.asRead]
    generalize evt.hasMoM = hasMoM at hbody ⊢
    cases hasMoM with
    | true => exact hbody
    | false => exact hbody
  | u evt => exact h.elim
  | kmdheight evt =>
    obtain ⟨hheight, hk, ht⟩ := h
    have hbody := ((readsAt_kmdheight hk ht).map Event.kmdheight).map some
    show ReadsAt _ (header (if evt.timestamp = 0 then 'K' else 'T') evt.height ++ _ ++ _) _
    rw [append_assoc]
    refine hparse hheight ?_
    by_cases hzero : evt.timestamp = 0
    · rw [if_pos hzero]
      simp only [hzero, ne_eq, not_true_eq_false, decide_false] at hbody ⊢
      exact hbody
    · rw [if_neg hzero]
      simp only [hzero, ne_eq, not_false_iff, decide_true] at hbody
      exact hbody
  | opreturn evt =>
    obtain ⟨hheight, htxid, hvout, hvalue, hlen⟩ := h
    have hbody := (readsAt_opreturn htxid hvout hvalue hlen).map Event.opreturn
    show ReadsAt _ (header 'R' evt.height ++ _ ++ _ ++ _ ++ _ ++ _) _
    simp only [append_assoc] at hbody ⊢
    exact hparse hheight (hbody.map some)
  | pricefeed evt =>
    obtain ⟨hheight, hnum, hlen⟩ := h
    have hbody := (readsAt_pricefeed hnum hlen).map Event.pricefeed
    show ReadsAt _ (header 'V' evt.height ++ _ ++ _) _
    rw [append_assoc]
    exact hparse hheight (hbody.map some)
  | rewind evt => exact h.elim

/-! ### The file -/

theorem write_ne_nil (evt : Event) : evt.write ≠ [] := by
  cases evt <;> exact cons_ne_nil _ _

/-- A reader that reads every event as it was written reads the file, from where the events
begin. -/
theorem run_written {parse : FileReader (Option Event)} {es : List Event}
    (h : ∀ evt ∈ es, ReadsAt parse evt.write (some evt.asRead)) :
    ∀ (before : Bytes) {calls : ℕ}, es.length < calls →
      run parse calls (before ++ es.flatMap Event.write) before.length
        = some { events := es.map Event.asRead
                 stop := .ended (before ++ es.flatMap Event.write).length } := by
  induction es with
  | nil =>
    intro before calls hcalls
    obtain ⟨calls, rfl⟩ := Nat.exists_eq_succ_of_ne_zero (Nat.ne_of_gt hcalls)
    rw [run, if_pos (by simp)]
    simp
  | cons evt es ih =>
    intro before calls hcalls
    obtain ⟨calls, rfl⟩ := Nat.exists_eq_succ_of_ne_zero (Nat.ne_of_gt (Nat.zero_lt_of_lt hcalls))
    have hlen : 0 < evt.write.length := length_pos_iff.2 (write_ne_nil evt)
    have hread := h evt mem_cons_self before (es.flatMap Event.write)
    have hrest := ih (fun e he => h e (mem_cons_of_mem _ he)) (before ++ evt.write)
      (Nat.lt_of_succ_lt_succ hcalls)
    rw [append_assoc, length_append] at hrest
    rw [flatMap_cons, run, if_neg (by simp only [length_append]; omega), hread]
    simp only [hrest, Option.map_some, Option.toList_some, map_cons, singleton_append]

/-- **The state file is read as it was written.**  Of the events that `komodo_stateupdate` writes,
one after the other, `komodo_parsestatefiledata` reads the same events in the same order, a
notarization without its MoM where the hash or the depth is zero, up to the last byte and without a
`parse_error`. -/
theorem readData_written (behind : UInt8) {dest : Bytes} {es : List Event}
    (h : ∀ evt ∈ es, evt.Written dest) :
    readData behind dest (es.flatMap Event.write)
      = some { events := es.map Event.asRead
               stop := .ended (es.flatMap Event.write).length } := by
  have hcalls : es.length < (es.flatMap Event.write).length + 1 := by
    have hsum := length_le_sum_of_one_le (es.map fun evt => evt.write.length) fun n hn => by
      obtain ⟨evt, -, rfl⟩ := mem_map.1 hn
      exact length_pos_iff.2 (write_ne_nil evt)
    rw [length_map] at hsum
    rw [length_flatMap]
    omega
  exact run_written (fun evt hevt => readsAt_write behind (h evt hevt)) [] hcalls

/-- A height with a time, a notarization whose MoM has no depth, and a payload. -/
theorem readData_written_three :
    let es : List Event := [
      .kmdheight { height := 2, kheight := 5, timestamp := 7 },
      .notarized { height := 3, blockhash := 8, notarizedheight := -1, MoM := 9, dest := [75] },
      .opreturn { height := 4, vout := 1, opret := [1, 2] }]
    readData 0 [75] (es.flatMap Event.write) = some {
      events := [
        .kmdheight { height := 2, kheight := 5, timestamp := 7 },
        .notarized { height := 3, blockhash := 8, notarizedheight := -1, dest := [75] },
        .opreturn { height := 4, vout := 1, opret := [1, 2] }]
      stop := .ended (es.flatMap Event.write).length } := by
  have hrange : ∀ v : ℤ, -1 ≤ v → v ≤ 5 → IntRange 4 v := fun v hlow hhigh =>
    ⟨le_trans (by norm_num) hlow, lt_of_le_of_lt hhigh (by norm_num)⟩
  refine readData_written 0 fun evt hevt => ?_
  simp only [mem_cons, not_mem_nil, or_false] at hevt
  rcases hevt with rfl | rfl | rfl
  · exact ⟨hrange 2 (by decide) (by decide), hrange 5 (by decide) (by decide), by decide⟩
  · exact ⟨⟨hrange 3 (by decide) (by decide), by decide, by decide, by decide,
      hrange (-1) (by decide) (by decide), hrange 0 (by decide) (by decide)⟩, by decide⟩
  · exact ⟨hrange 4 (by decide) (by decide), by decide, by decide, by decide, by decide⟩

end StateFile
end Komodo
