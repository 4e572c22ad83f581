import Zelda.Proofs.IniLookup
/-!
# Loading any file

Whatever bytes a file has, terminators included, splitting stays in the room
of the file, never overwrites the terminator behind it with anything else, and
moves forward in every round.
-/

namespace Zelda.Proofs.IniSafety

open Zelda.Vmm
open Zelda.Vmm.Ascii
open Zelda.Proofs.IniLookup

/-- The room of a file, with the terminator behind it. -/
structure Sound (fin : Nat) (data : List Byte) : Prop where
  length : data.length = fin + 1
  last : data[fin]? = some nul

/-- Only terminators have been written. -/
def Clears (data data' : List Byte) : Prop :=
  ∀ (i : Nat) (c : Byte), data'[i]? = some c → c = nul ∨ data[i]? = some c

theorem Clears.refl (data : List Byte) : Clears data data :=
  fun _ _ h => .inr h

theorem Clears.trans {data data' data'' : List Byte} (h : Clears data data')
    (h' : Clears data' data'') : Clears data data'' := by
  intro i c hc
  rcases h' i c hc with hnul | hc
  · exact .inl hnul
  · exact h i c hc

/-- No line break appears. -/
theorem Clears.newline {data data' : List Byte} (h : Clears data data') {i : Nat}
    (hi : data[i]? ≠ some newline) : data'[i]? ≠ some newline := by
  intro hc
  rcases h i _ hc with hnul | hc
  · cases hnul
  · exact hi hc

theorem clears_set (data : List Byte) (p : Nat) : Clears data (data.set p nul) := by
  intro i c hc
  rw [List.getElem?_set] at hc
  split at hc
  · split at hc
    · cases hc
      exact .inl rfl
    · cases hc
  · exact .inr hc

section Access

variable {fin p : Nat} {data : List Byte} (h : Sound fin data)
include h

theorem Sound.store (hp : p ≤ fin) (value : Byte) :
    storeByte data p value = some (data.set p value) := by
  rw [storeByte, if_pos]
  rw [h.length]
  omega

theorem Sound.set {value : Byte} (hp : p < fin ∨ value = nul) : Sound fin (data.set p value) := by
  refine ⟨by rw [List.length_set, h.length], ?_⟩
  rw [List.getElem?_set]
  split
  · rename_i heq
    rcases hp with hp | rfl
    · omega
    · rw [if_pos (by rw [h.length]; omega)]
  · exact h.last

/-- A read inside the room; what is no terminator stands before the last one. -/
theorem Sound.load (hp : p ≤ fin) : ∃ c, data[p]? = some c ∧ (c ≠ nul → p < fin) := by
  have hlt : p < data.length := by
    rw [h.length]
    omega
  refine ⟨data.get ⟨p, hlt⟩, List.getElem?_eq_getElem hlt, fun hc => ?_⟩
  by_contra hge
  obtain rfl : p = fin := by omega
  have hlast := h.last
  rw [List.getElem?_eq_getElem hlt, Option.some.injEq] at hlast
  exact hc hlast

/-- Counting stops at the terminator behind the file, at the latest. -/
theorem Sound.strcspn (hp : p ≤ fin) (reject : List Byte) :
    ∃ count, strcspn data p reject = some count ∧ p + count ≤ fin ∧
      ∀ c, data[p]? = some c → c ≠ nul → c ∉ reject → 0 < count := by
  set q : Byte → Bool := fun c => c != nul && !reject.contains c
  have hlast : (data.drop p)[fin - p]? = some nul := by
    rw [List.getElem?_drop, Nat.add_sub_cancel' hp, h.last]
  have hcount : ((data.drop p).takeWhile q).length ≤ fin - p := by
    by_contra hgt
    have hlt : fin - p < ((data.drop p).takeWhile q).length := by omega
    have hmem := List.getElem_mem hlt
    have hget := (List.takeWhile_prefix q (l := data.drop p)).getElem hlt
    have hin : fin - p < (data.drop p).length :=
      hlt.trans_le (List.takeWhile_sublist q).length_le
    rw [List.getElem?_eq_getElem hin, ← hget, Option.some.injEq] at hlast
    have hq := List.mem_takeWhile_imp hmem
    rw [hlast] at hq
    simp [q] at hq
  have hend : p + ((data.drop p).takeWhile q).length ≤ fin := by omega
  refine ⟨((data.drop p).takeWhile q).length, ?_, hend, ?_⟩
  · rw [Zelda.Vmm.strcspn]
    refine if_pos ?_
    rw [h.length]
    exact Nat.lt_succ_of_le hend
  · intro c hc hnul hreject
    have hdrop : (data.drop p)[0]? = some c := by
      rw [List.getElem?_drop, Nat.add_zero, hc]
    cases hcons : data.drop p with
    | nil =>
        rw [hcons] at hdrop
        cases hdrop
    | cons d rest =>
        rw [hcons, List.getElem?_cons_zero, Option.some.injEq] at hdrop
        rw [List.takeWhile_cons, if_pos (by simp [q, hdrop, hnul, hreject])]
        exact Nat.succ_pos _

end Access

/-- A step that keeps the room and comes to stand at `p` or behind it. -/
def Moves (fin p : Nat) (run : Option (List Byte × Nat)) : Prop :=
  ∃ data' p', run = some (data', p') ∧ Sound fin data' ∧ p ≤ p' ∧ p' ≤ fin

theorem Moves.mono {fin p p' : Nat} {run : Option (List Byte × Nat)} (h : Moves fin p' run)
    (hle : p ≤ p') : Moves fin p run := by
  obtain ⟨data', q, hrun, hsound, hq, hbound⟩ := h
  exact ⟨data', q, hrun, hsound, hle.trans hq, hbound⟩

section Steps

variable {fin p : Nat} {data : List Byte} (h : Sound fin data)
include h

theorem trimBack_sound {n : Nat} (hn : n ≤ fin) :
    ∃ data', trimBack data n = some data' ∧ Sound fin data' ∧ Clears data data' := by
  induction n generalizing data with
  | zero => exact ⟨data, rfl, h, Clears.refl data⟩
  | succ n ih =>
      obtain ⟨c, hload, -⟩ := h.load (p := n) (by omega)
      rw [trimBack, hload]
      simp only [Option.bind_eq_bind, Option.bind_some]
      split
      · rw [h.store (p := n) (by omega)]
        obtain ⟨data', hrun, hsound, hclears⟩ := ih (h.set (.inr rfl)) (by omega)
        exact ⟨data', hrun, hsound, (clears_set data n).trans hclears⟩
      · exact ⟨data, rfl, h, Clears.refl data⟩

theorem discardLine_sound (rounds : Nat) (hp : p ≤ fin) (hrounds : fin - p < rounds) :
    Moves fin p (discardLine fin rounds data p) := by
  induction rounds generalizing data p with
  | zero => exact absurd hrounds (Nat.not_lt_zero _)
  | succ rounds ih =>
      rw [discardLine]
      split
      · rename_i hlt
        obtain ⟨c, hload, -⟩ := h.load hp
        rw [hload]
        simp only [Option.bind_eq_bind, Option.bind_some]
        split
        · rw [h.store hp]
          exact (ih (h.set (.inr rfl)) hlt (by omega)).mono (Nat.le_succ p)
        · exact ⟨data, p, rfl, h, le_rfl, hp⟩
      · exact ⟨data, p, rfl, h, le_rfl, hp⟩

/-- Discarding moves forward where a line does not end. -/
theorem discardLine_progress (hp : p < fin) (hline : data[p]? ≠ some newline) :
    Moves fin (p + 1) (discardLine fin (fin + 1) data p) := by
  obtain ⟨c, hload, -⟩ := h.load hp.le
  rw [hload] at hline
  rw [discardLine, if_pos hp, hload]
  simp only [Option.bind_eq_bind, Option.bind_some]
  rw [if_pos (fun heq => hline (congrArg some heq)), h.store hp.le]
  exact discardLine_sound (h.set (.inr rfl)) fin hp (by omega)

theorem clearEquals_sound (rounds : Nat) (hp : p < fin) (hrounds : fin - p < rounds) :
    ∃ data' p', clearEquals rounds data p = some (data', p') ∧ Sound fin data' ∧
      Clears data data' ∧ p < p' ∧ p' ≤ fin := by
  induction rounds generalizing data p with
  | zero => exact absurd hrounds (Nat.not_lt_zero _)
  | succ rounds ih =>
      have hset : Sound fin (data.set p nul) := h.set (.inr rfl)
      obtain ⟨c, hload, hlt⟩ := hset.load (p := p + 1) hp
      rw [clearEquals, h.store hp.le]
      simp only [Option.bind_eq_bind, Option.bind_some, hload]
      split
      · rename_i hspace
        have hc : c ≠ nul := by
          rintro rfl
          cases hspace
        obtain ⟨data', p', hrun, hsound, hclears, hle, hbound⟩ := ih hset (hlt hc) (by omega)
        exact ⟨data', p', hrun, hsound, (clears_set data p).trans hclears, by omega, hbound⟩
      · exact ⟨_, p + 1, rfl, hset, clears_set data p, Nat.lt_succ_self p, hp⟩

/-- The write head stays behind the read head, and nothing before it changes. -/
theorem unescapeLoop_sound (rounds : Nat) {q : Nat} (hq : q < p) (hp : p ≤ fin)
    (hrounds : fin - p < rounds) :
    ∃ data' q', unescapeLoop fin rounds data q p = some (data', q') ∧ Sound fin data' ∧
      (∀ i < q, data'[i]? = data[i]?) ∧ q ≤ q' ∧ q' ≤ fin := by
  induction rounds generalizing data q p with
  | zero => exact absurd hrounds (Nat.not_lt_zero _)
  | succ rounds ih =>
      have hstay : ∃ data' q', some (data, q) = some (data', q') ∧ Sound fin data' ∧
          (∀ i < q, data'[i]? = data[i]?) ∧ q ≤ q' ∧ q' ≤ fin :=
        ⟨data, q, rfl, h, fun _ _ => rfl, le_rfl, by omega⟩
      have hwrite : ∀ value p', p < p' → p' ≤ fin →
          ∃ data' q', unescapeLoop fin rounds (data.set q value) (q + 1) p' = some (data', q') ∧
            Sound fin data' ∧ (∀ i < q, data'[i]? = data[i]?) ∧ q ≤ q' ∧ q' ≤ fin := by
        intro value p' hlt hle
        have hset : Sound fin (data.set q value) := h.set (.inl (by omega))
        obtain ⟨data', q', hrun, hsound, hframe, hge, hbound⟩ :=
          ih hset (show q + 1 < p' by omega) hle (by omega)
        refine ⟨data', q', hrun, hsound, fun i hi => ?_, by omega, hbound⟩
        rw [hframe i (by omega), List.getElem?_set_ne (by omega)]
      rw [unescapeLoop]
      split
      · rename_i hlt
        obtain ⟨c, hload, -⟩ := h.load hp
        rw [hload]
        simp only [Option.bind_eq_bind, Option.bind_some]
        split
        · exact hstay
        · split
          · obtain ⟨d, hload', hbehind⟩ := h.load (p := p + 1) hlt
            rw [hload']
            simp only [Option.bind_some]
            split
            · exact hstay
            · rename_i hd
              rw [h.store (p := q) (by omega)]
              simp only [not_or] at hd
              exact hwrite (escaped d) (p + 2) (by omega) (hbehind hd.2.2)
          · rw [h.store (p := q) (by omega)]
            exact hwrite c (p + 1) (Nat.lt_succ_self p) hlt
      · exact hstay

theorem splitValue_sound {lineStart : Nat} (hstart : lineStart < p) (hp : p ≤ fin)
    (hline : data[lineStart]? ≠ some newline) :
    Moves fin (lineStart + 1) (splitValue fin data lineStart p) := by
  obtain ⟨c, hload, hlt⟩ := h.load hp
  rw [splitValue, hload]
  simp only [Option.bind_eq_bind, Option.bind_some]
  split
  · exact discardLine_progress h (hstart.trans_le hp) hline
  · rename_i hgoes
    simp only [not_or] at hgoes
    split
    · obtain ⟨data', q, hrun, hsound, hframe, hle, hbound⟩ :=
        unescapeLoop_sound h (fin + 1) (Nat.lt_succ_self p) (hlt hgoes.2) (by omega)
      rw [unescapeQuotedValue, hrun]
      simp only [Option.bind_some]
      split
      · apply discardLine_progress hsound (hstart.trans_le hp)
        rwa [hframe lineStart hstart]
      · exact (discardLine_sound hsound (fin + 1) hbound (by omega)).mono (by omega)
    · obtain ⟨count, hcount, hend, -⟩ := h.strcspn hp [newline]
      obtain ⟨data', htrim, hsound, -⟩ := trimBack_sound h hend
      rw [hcount]
      simp only [Option.bind_some, htrim]
      exact ⟨data', p + count, rfl, hsound, by omega, hend⟩

theorem splitEntry_sound (hp : p < fin) (hline : data[p]? ≠ some newline) :
    Moves fin (p + 1) (splitEntry fin data p) := by
  obtain ⟨count, hcount, hend, -⟩ := h.strcspn hp.le [equals, newline]
  obtain ⟨c, hload, hlt⟩ := h.load hend
  rw [splitEntry, hcount]
  simp only [Option.bind_eq_bind, Option.bind_some, hload]
  split
  · exact discardLine_progress h hp hline
  · rename_i hequals
    have hc : c ≠ nul := by
      intro hnul
      apply hequals
      rw [hnul]
      decide
    obtain ⟨data', htrim, hsound, hclears⟩ := trimBack_sound h hend
    obtain ⟨data'', p', hclear, hsound', hclears', hle, hbound⟩ :=
      clearEquals_sound hsound (fin + 1) (hlt hc) (by omega)
    rw [htrim]
    simp only [Option.bind_some, hclear]
    exact splitValue_sound hsound' (by omega) hbound ((hclears.trans hclears').newline hline)

/-- Every round stays in the room and moves forward. -/
theorem splitRound_sound (hp : p < fin) : Moves fin (p + 1) (splitRound fin data p) := by
  obtain ⟨c, hload, -⟩ := h.load hp.le
  rw [splitRound, hload]
  simp only [Option.bind_eq_bind, Option.bind_some]
  split
  · rw [h.store hp.le]
    exact ⟨_, p + 1, rfl, h.set (.inr rfl), le_rfl, hp⟩
  · rename_i hblank
    simp only [not_or] at hblank
    have hline : data[p]? ≠ some newline := by
      rw [hload]
      exact fun heq => hblank.2.1 (Option.some.inj heq)
    split
    · exact ⟨data, p + 1, rfl, h, le_rfl, hp⟩
    · rename_i hnul
      split
      · rename_i hopen
        obtain ⟨count, hcount, hend, hpos⟩ := h.strcspn hp.le [closeBracket, newline]
        have hnext := hpos c hload hnul (by rw [hopen]; decide)
        rw [hcount]
        simp only [Option.bind_some, h.store hend]
        exact ⟨_, p + count, rfl, h.set (.inr rfl), by omega, hend⟩
      · split
        · exact discardLine_progress h hp hline
        · exact splitEntry_sound h hp hline

theorem splitLoop_sound (rounds : Nat) (hp : p ≤ fin) (hrounds : fin - p < rounds) :
    ∃ data', splitLoop fin rounds data p = some data' ∧ Sound fin data' := by
  induction rounds generalizing data p with
  | zero => exact absurd hrounds (Nat.not_lt_zero _)
  | succ rounds ih =>
      rw [splitLoop]
      split
      · rename_i hlt
        obtain ⟨data', p', hround, hsound, hle, hbound⟩ := splitRound_sound h hlt
        rw [hround]
        exact ih hsound hbound (by omega)
      · exact ⟨data, rfl, h⟩

end Steps

/-- A file that is split fills the room it had and ends with a terminator. -/
theorem splitData_terminated (file : List Byte) :
    ∃ body, body.length = file.length ∧ splitData (Ini.ofFile file) = some (terminated body) := by
  have hinit : Sound file.length (file ++ [nul]) := by
    refine ⟨by rw [List.length_append, List.length_singleton], ?_⟩
    rw [List.getElem?_append_right le_rfl, Nat.sub_self, List.getElem?_cons_zero]
  obtain ⟨data, hrun, hsound⟩ :=
    splitLoop_sound hinit (file.length + 1) (Nat.zero_le _) (by omega)
  have hlast : data = data.take file.length ++ [nul] := by
    conv_lhs => rw [← List.take_append_drop file.length data]
    have hlt : file.length < data.length := by
      rw [hsound.length]
      omega
    have hlast := hsound.last
    rw [List.getElem?_eq_getElem hlt, Option.some.injEq] at hlast
    rw [List.drop_eq_getElem_cons hlt, hlast, List.drop_eq_nil_of_le hsound.length.le]
  have hlength : (data.take file.length).length = file.length := by
    rw [List.length_take, hsound.length]
    omega
  refine ⟨data.take file.length, hlength, ?_⟩
  rw [splitData, Ini.ofFile, terminated, ← hlast, hlength]
  simp only [hrun, Option.bind_eq_bind, Option.bind_some]
  rfl

/-! ## Loading -/

/-- A size that `sz` holds and `sz + 1` does not overflow. -/
theorem sz_regular {file : List Byte} (hsize : file.length + 1 < 2 ^ 31) :
    (Stream.regular file).sz = file.length := by
  show (BitVec.ofInt 32 (file.length : Int)).toInt = _
  rw [BitVec.toInt_ofInt]
  exact Int.bmod_eq_of_le (by omega) (by omega)

/-- A regular file of such a size is read whole. -/
theorem iniLoad_regular {file : List Byte} (hsize : file.length + 1 < 2 ^ 31) :
    iniLoad (some (Stream.regular file)) = (splitData (Ini.ofFile file)).map some := by
  have hsz := sz_regular hsize
  have hroom : ¬((Stream.regular file).sz < 0 ∨ (Stream.regular file).sz = INT_MAX) := by
    rw [hsz, INT_MAX]
    omega
  have hread : (Stream.regular file).bytes.take (Stream.regular file).sz.toNat = file := by
    rw [hsz, Int.toNat_natCast]
    exact List.take_length
  rw [iniLoad, if_neg hroom]
  simp only [hread]
  rw [if_neg (not_not.mpr hsz.symm)]

/-- Loading leaves its buffer exactly where `sz` has no room for the terminator behind it. -/
theorem iniLoad_eq_none_iff (fp : Stream) :
    iniLoad (some fp) = none ↔ fp.sz < 0 ∨ fp.sz = INT_MAX := by
  rw [iniLoad]
  split
  · rename_i hroom
    exact iff_of_true rfl hroom
  · rename_i hroom
    refine iff_of_false ?_ hroom
    simp only
    split
    · exact Option.some_ne_none _
    · obtain ⟨body, -, hsplit⟩ := splitData_terminated (fp.bytes.take fp.sz.toNat)
      rw [hsplit]
      exact Option.some_ne_none _

/-- What a stream is loaded to ends with a terminator, and any key can be looked up in it. -/
theorem lookup_of_load {fp : Stream} {ini : Ini} (h : iniLoad (some fp) = some (some ini)) :
    (ini.fin : Int) = fp.sz ∧ ini.data.length = ini.fin + 1 ∧ ini.data[ini.fin]? = some nul ∧
      ∀ (wanted : Option CString) (key : CString), ∃ value, iniValue ini wanted key = some value := by
  rw [iniLoad] at h
  split at h
  · cases h
  · simp only at h
    split at h
    · cases h
    · rename_i hread
      rw [not_not] at hread
      obtain ⟨body, hlength, hsplit⟩ := splitData_terminated (fp.bytes.take fp.sz.toNat)
      rw [hsplit, Option.map_some, Option.some.injEq, Option.some.injEq] at h
      subst h
      refine ⟨?_, ?_, ?_, fun wanted key => ⟨_, iniValue_terminated body wanted key⟩⟩
      · rw [← hread, ← hlength]
        rfl
      · rw [terminated, List.length_append, List.length_singleton]
      · rw [terminated, List.getElem?_append_right le_rfl, Nat.sub_self, List.getElem?_cons_zero]

/--
Loading stays in its buffer exactly when the size that `ftell` tells is, as an
`int`, not negative and not the largest one; a regular file whose size is loads.
Whatever is loaded, any key can be looked up in it.
-/
theorem load_then_lookup (fp : Stream) :
    (iniLoad (some fp) = none ↔ fp.sz < 0 ∨ fp.sz = INT_MAX) ∧
    (∀ file, fp = .regular file → file.length + 1 < 2 ^ 31 →
      ∃ ini, iniLoad (some fp) = some (some ini) ∧ ini.fin = file.length) ∧
    ∀ ini, iniLoad (some fp) = some (some ini) →
      (ini.fin : Int) = fp.sz ∧ ini.data.length = ini.fin + 1 ∧ ini.data[ini.fin]? = some nul ∧
      ∀ (wanted : Option CString) (key : CString), ∃ value,
        iniValue ini wanted key = some value := by
  refine ⟨iniLoad_eq_none_iff fp, ?_, fun _ h => lookup_of_load h⟩
  rintro file rfl hsize
  obtain ⟨body, hlength, hsplit⟩ := splitData_terminated file
  refine ⟨terminated body, ?_, hlength⟩
  rw [iniLoad_regular hsize, hsplit, Option.map_some]

/-- A pipe, and the line `n=4`. -/
theorem load_then_lookup_streams :
    iniLoad (some { told := -1, bytes := [] }) = none ∧
      ∃ ini, iniLoad (some (.regular [0x6e, 0x3d, 0x34, 0x0a])) = some (some ini) ∧
        ini.fin = 4 :=
  ⟨(load_then_lookup { told := -1, bytes := [] }).1.mpr (.inl (by decide)),
    (load_then_lookup (.regular _)).2.1 _ rfl (by decide)⟩

end Zelda.Proofs.IniSafety
