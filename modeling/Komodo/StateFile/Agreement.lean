/-
# Where the two readers of the state file agree

Where every record that is reached is framed the readers agree, and they disagree at the first one
that is not (`parted_parse`), but for a list of more than 35 prices.  There both apply the same
event, and only where they go on is different.
-/

import Komodo.StateFile.Framed

namespace Komodo
namespace StateFile

open Buffers List Option

/-- The record at a position is a list of more prices than there are places for. -/
def OverlongAt (file : Bytes) (pos : ℕ) : Prop :=
  pos + 5 ≤ file.length ∧ (file.drop pos).take 1 = ['V'.toUInt8]
    ∧ ∃ num ∈ (file.drop (pos + 5)).head?, 35 < num.toNat

/-- Both readers come to an end, after the same events that are applied and at the same place, or
at a `parse_error` in the same record. -/
def Agree (chain : Chain) (behind : UInt8) (dest file : Bytes) : Prop :=
  ∃ slow fast, readFile dest file = some slow ∧ readData behind dest file = some fast
    ∧ slow.events.filter chain.applies = fast.events.filter chain.applies ∧ slow.stop = fast.stop

variable {file : Bytes} {pos : ℕ} {behind : UInt8} {dest : Bytes}

/-! ### Where a record is not framed -/

/-- What two readers find in a record is not the same, and it shows: an event that is applied, or
where the reading ends. -/
inductive Parted (chain : Chain) : (slow fast : Except Fault (Option Event × ℕ)) → Prop
  | overflow {fast} : Fails fast → Parted chain (.error .overflow) fast
  | slowFails {slow evt pos} : Fails slow → chain.applies evt = true →
      Parted chain slow (.ok (some evt, pos))
  | fastFails {fast evt pos} : chain.applies evt = true → Fails fast →
      Parted chain (.ok (some evt, pos)) fast
  | events {evt evt' pos pos'} : chain.applies evt = true → chain.applies evt' = true →
      evt ≠ evt' → Parted chain (.ok (some evt, pos)) (.ok (some evt', pos'))

theorem run_some {chain : Chain} {parse : FileReader (Option Event)} {calls pos' : ℕ} {evt : Event}
    {r : Run} (hpos : pos < file.length) (h : parse file pos = .ok (some evt, pos'))
    (happlies : chain.applies evt = true) (hr : run parse (calls + 1) file pos = some r) :
    ∃ events, r.events.filter chain.applies = evt :: events := by
  rw [run_ok hpos h] at hr
  obtain ⟨r', -, rfl⟩ := map_eq_some_iff.1 hr
  exact ⟨r'.events.filter chain.applies, filter_cons_of_pos happlies⟩

/-- Readers that part at a record do not come to the same end. -/
theorem run_parted {chain : Chain} {parse parse' : FileReader (Option Event)} {calls : ℕ}
    {r r' : Run} (hpos : pos < file.length) (h : Parted chain (parse file pos) (parse' file pos))
    (hr : run parse (calls + 1) file pos = some r) (hr' : run parse' (calls + 1) file pos = some r')
    (hevents : r.events.filter chain.applies = r'.events.filter chain.applies) :
    r.stop ≠ r'.stop := by
  generalize hslow : parse file pos = slow at h
  generalize hfast : parse' file pos = fast at h
  cases h with
  | overflow hfails =>
    rw [← hfast] at hfails
    rw [run_fails hpos hfails] at hr'
    rw [run, if_neg (Nat.not_le.2 hpos), hslow] at hr
    rw [← some.inj hr, ← some.inj hr']
    exact Stop.noConfusion
  | slowFails hfails happlies =>
    rw [← hslow] at hfails
    rw [run_fails hpos hfails] at hr
    obtain ⟨events, hcons⟩ := run_some hpos hfast happlies hr'
    rw [← some.inj hr, hcons] at hevents
    exact absurd hevents (cons_ne_nil _ _).symm
  | fastFails happlies hfails =>
    rw [← hfast] at hfails
    rw [run_fails hpos hfails] at hr'
    obtain ⟨events, hcons⟩ := run_some hpos hslow happlies hr
    rw [← some.inj hr', hcons] at hevents
    exact absurd hevents (cons_ne_nil _ _)
  | events happlies happlies' hne =>
    obtain ⟨events, hcons⟩ := run_some hpos hslow happlies hr
    obtain ⟨events', hcons'⟩ := run_some hpos hfast happlies' hr'
    rw [hcons, hcons'] at hevents
    exact absurd (cons.inj hevents).1 hne

/-- Keys that do not fit into their array. -/
theorem parted_pubkeys (chain : Chain) (ht : ℤ) (hkeys : ¬ ∀ num ∈ (file.drop pos).head?,
      num.toNat ≤ 64 ∨ (file.drop pos).length ≤ 1 + 64 * 33) :
    Parted chain ((some <$> Event.pubkeys <$> pubkeysOfFile ht) file pos)
      ((some <$> Event.pubkeys <$> pubkeysOfData behind ht) file pos) := by
  rcases hbody : file.drop pos with _ | ⟨num, keys⟩
  · rw [hbody] at hkeys
    exact absurd (fun num hnum => nomatch hnum) hkeys
  · have hmany : 64 < num.toNat ∧ 64 * 33 < keys.length := by
      rw [hbody] at hkeys
      by_contra hfit
      refine hkeys fun n hn => ?_
      cases hn
      rw [length_cons]
      omega
    obtain ⟨hslow, hfast⟩ := pubkeys_overflow behind ht hbody hmany.1 hmany.2
    rw [map_run (r := Event.pubkeys <$> pubkeysOfFile ht), map_run (r := pubkeysOfFile ht), hslow]
    exact .overflow (map_fails _ (map_fails _ hfast))

/-- A payload that is cut off. -/
theorem parted_opreturn (chain : Chain) (ht : ℤ) (hpos : pos + 44 ≤ file.length)
    (hcut : file.length < pos + 44 + fromLE ((file.drop (pos + 42)).take 2)) :
    Parted chain ((some <$> Event.opreturn <$> opreturnOfFile ht) file pos)
      ((some <$> Event.opreturn <$> opreturnOfData ht) file pos) := by
  have hslow : Fails (opreturnOfFile ht file pos) := by
    unfold opreturnOfFile
    rw [bind_ok (freadAll_ok (by omega)), bind_ok (freadAll_ok (by omega)),
      bind_ok (freadAll_ok (by omega)), bind_ok (freadAll_ok (by omega))]
    exact bind_fails _ (freadAll_fails (by omega) (by omega))
  have hfast : ∃ evt, opreturnOfData ht file pos = .ok (evt, pos + 44) := by
    unfold opreturnOfData
    rw [bind_ok (memRead_ok (by omega)), bind_ok (memRead_ok (by omega)),
      bind_ok (memRead_ok (by omega)), bind_ok (memRead_ok (by omega))]
    have hleft : bytesLeft file (pos + 32 + 2 + 8 + 2)
        = .ok (file.length - (pos + 44), pos + 32 + 2 + 8 + 2) := rfl
    rw [bind_ok hleft, if_neg (show ¬ fromLE ((file.drop (pos + 32 + 2 + 8)).take 2)
      ≤ file.length - (pos + 44) by rw [show pos + 32 + 2 + 8 = pos + 42 by omega]; omega)]
    exact ⟨_, rfl⟩
  obtain ⟨evt, hevt⟩ := hfast
  have hread : (some <$> Event.opreturn <$> opreturnOfData ht) file pos
      = .ok (some (.opreturn evt), pos + 44) := by
    rw [map_run, map_run, hevt]
    rfl
  rw [hread]
  exact .slowFails (map_fails _ (map_fails _ hslow)) rfl

/-- A list of prices that is not there, is cut off, or has less than 35 prices of which the fast
reader keeps none. -/
theorem parted_pricefeed (chain : Chain) (ht : ℤ) (hpos : pos ≤ file.length)
    (hnum : ∀ num ∈ (file.drop pos).head?, num.toNat ≤ 35)
    (hparted : ¬ PricesFramed (file.drop pos)) :
    Parted chain ((some <$> Event.pricefeed <$> pricefeedOfFile ht) file pos)
      ((some <$> Event.pricefeed <$> pricefeedOfData ht) file pos) := by
  rcases hbody : file.drop pos with _ | ⟨num, prices⟩
  · -- the number is `EOF` for the slow reader
    have hend : file.length ≤ pos := drop_eq_nil_iff.1 hbody
    have hslow : pricefeedOfFile ht file pos = .ok ({ height := ht, num := 255 }, pos) := by
      rw [pricefeedOfFile_eq (fgetcByte_nil hbody), if_neg (by omega)]
    have hfast : Fails (pricefeedOfData ht file pos) := bind_fails _ (memRead_fails (by omega))
    rw [map_run (r := Event.pricefeed <$> pricefeedOfFile ht), map_run, hslow]
    exact .fastFails rfl (map_fails _ (map_fails _ hfast))
  · rw [hbody] at hparted hnum
    have hnum' : num.toNat ≤ 35 := hnum num rfl
    obtain ⟨hpos', -, rfl, hlen⟩ := cons_of_drop hbody
    have hne : num.toNat ≠ 35 := fun h => hparted (.inl h)
    have hfast : pricefeedOfData ht file pos
        = .ok ({ height := ht, num := num.toNat }, pos + 1 + 4 * num.toNat) := by
      rw [pricefeedOfData_eq hbody, if_neg hne]
    rw [map_run (r := Event.pricefeed <$> pricefeedOfData ht), map_run (r := pricefeedOfData ht),
      hfast]
    by_cases hthere : pos + 1 + 4 * num.toNat ≤ file.length
    · have hslow : pricefeedOfFile ht file pos = .ok (.mk ht num.toNat
          ((file.drop (pos + 1)).take (4 * num.toNat) ++ replicate (35 - 4 * num.toNat) 0),
            pos + 1 + 4 * num.toNat) := by
        have htaken : ((file.drop (pos + 1)).take (4 * num.toNat)).length = 4 * num.toNat := by
          rw [length_take]
          omega
        rw [pricefeedOfFile_eq (fgetcByte_cons hbody), if_pos (by omega),
          bind_ok (freadAll_ok hthere), htaken]
        rfl
      rw [map_run (r := Event.pricefeed <$> pricefeedOfFile ht), map_run, hslow]
      refine .events rfl rfl fun heq => hparted (.inr ?_)
      have hprices : (file.drop (pos + 1)).take (4 * num.toNat)
          ++ replicate (35 - 4 * num.toNat) 0 = replicate 35 0 :=
        congrArg PricefeedEvent.prices (Event.pricefeed.inj heq)
      have hlength := congrArg length hprices
      rw [length_append, length_take, length_replicate, length_replicate]
        at hlength
      refine ⟨by omega, by omega, fun b hb => ?_⟩
      exact eq_of_mem_replicate (hprices ▸ mem_append_left _ hb)
    · have hslow : Fails (pricefeedOfFile ht file pos) := by
        rw [pricefeedOfFile_eq (fgetcByte_cons hbody), if_pos (by omega)]
        exact bind_fails _ (freadAll_fails hpos' (by omega))
      exact .slowFails (map_fails _ (map_fails _ hslow)) rfl

/-- **At a record that is not framed the readers part**, but for a list of too many prices. -/
theorem parted_parse (chain : Chain) (hframed : ¬ FramedAt file pos)
    (hlong : ¬ OverlongAt file pos) :
    Parted chain (parseStateFile dest file pos) (parseStateFileData behind dest file pos) := by
  obtain ⟨hheight, hbody⟩ := Classical.not_imp.1 hframed
  rw [parseStateFile_eq hheight, parseStateFileData_eq hheight]
  generalize int32Of ((file.drop (pos + 1)).take 4) = ht
  unfold recordOfFile recordOfData
  by_cases hP : (file.drop pos).take 1 = ['P'.toUInt8]
  · simp only [if_pos hP]
    refine parted_pubkeys chain ht fun hkeys => hbody ⟨fun _ => hkeys, ?_, ?_⟩ <;> rw [hP]
    · exact fun h => absurd h (by decide)
    · exact fun h => absurd h (by decide)
  by_cases hR : (file.drop pos).take 1 = ['R'.toUInt8]
  · rw [hR] at hbody ⊢
    have hcut : 44 ≤ (file.drop (pos + 5)).length ∧ (file.drop (pos + 5)).length
        < 44 + fromLE (((file.drop (pos + 5)).drop 42).take 2) := by
      by_contra hleft
      refine hbody ⟨fun h => absurd h (by decide), fun _ hfixed => ?_,
        fun h => absurd h (by decide)⟩
      exact Nat.le_of_not_lt fun hlt => hleft ⟨hfixed, hlt⟩
    rw [length_drop, drop_drop] at hcut
    exact parted_opreturn chain ht (by omega) (by omega)
  by_cases hV : (file.drop pos).take 1 = ['V'.toUInt8]
  · have hprices : ¬ PricesFramed (file.drop (pos + 5)) := by
      rw [hV] at hbody
      exact fun h => hbody ⟨fun h => absurd h (by decide), fun h => absurd h (by decide), fun _ => h⟩
    rw [hV]
    refine parted_pricefeed chain ht hheight (fun num hnum => ?_) hprices
    exact Nat.le_of_not_lt fun hlt => hlong ⟨hheight, hV, num, hnum, hlt⟩
  exact absurd ⟨fun h => absurd h hP, fun h => absurd h hR, fun h => absurd h hV⟩ hbody

/-- Up to a position that is reached both readers read the same events. -/
theorem run_up_to (behind : UInt8) (dest : Bytes) (h : Reached file pos) : ∃ events calls, file.length - pos < calls
    ∧ readFile dest file = (run (parseStateFile dest) calls file pos).map (fun r =>
        { r with events := events ++ r.events })
    ∧ readData behind dest file = (run (parseStateFileData behind dest) calls file pos).map
        (fun r => { r with events := events ++ r.events }) := by
  induction h with
  | start => exact ⟨[], file.length + 1, by omega, map_id'.symm, map_id'.symm⟩
  | @next pos n hreached hframed hlen hle ih =>
    obtain ⟨events, calls, hcalls, hslow, hfast⟩ := ih
    obtain ⟨hn, hheight⟩ := five_le_recordLen hlen
    have htogether := togetherOr_parse behind dest (by omega) hframed
    rw [hlen] at htogether
    obtain ⟨evt, hevt, hevt'⟩ := htogether.1 hle
    obtain ⟨calls, rfl⟩ : ∃ calls', calls = calls' + 1 := ⟨calls - 1, by omega⟩
    refine ⟨events ++ evt.toList, calls, by omega, ?_, ?_⟩
    · rw [hslow, run_ok (by omega) hevt, Option.map_map]
      simp only [Function.comp_def, append_assoc]
    · rw [hfast, run_ok (by omega) hevt', Option.map_map]
      simp only [Function.comp_def, append_assoc]

theorem not_agree_of_parted {chain : Chain} (h : Reached file pos) (hframed : ¬ FramedAt file pos)
    (hlong : ¬ OverlongAt file pos) : ¬ Agree chain behind dest file := by
  rintro ⟨slow, fast, hslow, hfast, hevents, hstop⟩
  obtain ⟨events, calls, hcalls, hslow', hfast'⟩ :=
    run_up_to behind dest h
  have hheight : pos + 5 ≤ file.length := (Classical.not_imp.1 hframed).1
  rw [hslow'] at hslow
  rw [hfast'] at hfast
  obtain ⟨r, hr, rfl⟩ := map_eq_some_iff.1 hslow
  obtain ⟨r', hr', rfl⟩ := map_eq_some_iff.1 hfast
  rw [filter_append, filter_append, append_cancel_left_eq] at hevents
  obtain ⟨calls, rfl⟩ : ∃ calls', calls = calls' + 1 := ⟨calls - 1, by omega⟩
  exact run_parted (by omega) (parted_parse chain hframed hlong) hr hr' hevents hstop

/-- **The readers of the state file agree where every record is framed, and disagree where one that
is reached is not**, but for a list of more than 35 prices. -/
theorem agree_framed (chain : Chain) (behind : UInt8) (dest file : Bytes) :
    (Framed file → Agree chain behind dest file)
      ∧ (Agree chain behind dest file →
        Framed file ∨ ∃ pos, Reached file pos ∧ OverlongAt file pos) := by
  constructor
  · intro hframed
    obtain ⟨r, hslow, hfast⟩ := run_eq_of_framed behind dest hframed
      .start (Nat.lt_succ_self file.length)
    exact ⟨r, r, hslow, hfast, rfl, rfl⟩
  · intro hagree
    by_contra hnone
    obtain ⟨hframed, hlong⟩ := not_or.1 hnone
    obtain ⟨pos, hpos⟩ := Classical.not_forall.1 hframed
    obtain ⟨hreached, hnot⟩ := Classical.not_imp.1 hpos
    exact not_agree_of_parted hreached hnot (fun h => hlong ⟨pos, hreached, h⟩) hagree

/-- A payload of one byte that is not there: one reader applies the event, the other fails. -/
theorem readers_part : ¬ ∀ chain behind dest file, Agree chain behind dest file := by
  intro h
  let file : Bytes := ('R'.toUInt8 :: replicate 46 0) ++ [1, 0]
  obtain ⟨slow, fast, hslow, hfast, hevents, -⟩ :=
    h { isKMD := false, symbolIsKMD := false, symbolIsOwn := true, externalNotaries := false }
      0 [] file
  have hslow' : readFile [] file = some { events := [], stop := .parseError 0 } := by
    decide
  have hfast' : readData 0 [] file
      = some { events := [.opreturn { height := 0 }], stop := .ended 49 } := by decide +kernel
  rw [← Option.some.inj (hslow'.symm.trans hslow),
    ← Option.some.inj (hfast'.symm.trans hfast)] at hevents
  exact cons_ne_nil _ _ hevents.symm

end StateFile
end Komodo
