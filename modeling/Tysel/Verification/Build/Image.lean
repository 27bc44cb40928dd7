import Tysel.Algorithm.Build.Image

/-! Only the first read of the program table can overflow: a file has less than `2 ^ 63` bytes, and
a later entry begins less than `2 ^ 16` bytes after one that was read. -/

namespace Tysel.Build

open Tysel.Bytes Tysel.Text List

variable {path : String} {bs : List UInt8} {offset width value : ℕ} {enforce : Bool}

def Returned (stop : Stop) : Prop := ∃ text, stop = .error text

theorem reject_returned {c : Prop} [Decidable c] (text : String) :
    Errs Returned (reject c (Stop.error text)) :=
  .reject fun _ => ⟨text, rfl⟩

theorem readUnsigned_ok (h : readUnsigned bs offset width = .ok value) :
    offset + width ≤ bs.length ∧ value = ofLeBytes (window bs offset width) := by
  simp only [readUnsigned, reject_bind_ok_iff, pure_ok] at h
  exact ⟨not_lt.mp h.2.1, h.2.2.symm⟩

theorem readUnsigned_returned (h : offset + width < 2 ^ 64) :
    Errs Returned (readUnsigned bs offset width) :=
  .bind (.reject fun _ => by omega) fun _ _ => .bind (reject_returned _) fun _ _ => .ok _

theorem field_lt (bs : List UInt8) (offset width : ℕ) :
    ofLeBytes (window bs offset width) < 256 ^ width :=
  (ofLeBytes_lt _).trans_le (Nat.pow_le_pow_right (by decide) (length_take_le ..))

/-- The string of an interpreter entry lies in the file and names an `ld-linux` loader. -/
def Loads (bs : List UInt8) (offset : ℕ) : Prop :=
  ofLeBytes (window bs offset 4) = 3 → let start := ofLeBytes (window bs (offset + 8) 8)
    let size := ofLeBytes (window bs (offset + 32) 8)
    start + size ≤ bs.length ∧ "ld-linux".toList <:+: fromUtf8Lossy (window bs start size)

section

variable (hlen : bs.length < 2 ^ 63)

include hlen

theorem validateEntry_returned (h : offset + 4 < 2 ^ 64) :
    Errs Returned (validateEntry path bs offset enforce) := by
  refine .bind (readUnsigned_returned h) fun _ hkind => ?_
  have hin := (readUnsigned_ok hkind).1
  split
  · exact .ok _
  refine .bind (.reject fun _ => by omega) fun _ _ => .bind (readUnsigned_returned (by omega))
    fun _ _ => .bind (.reject fun _ => by omega) fun _ _ =>
      .bind (readUnsigned_returned (by omega)) fun _ _ => .bind (reject_returned _)
        fun _ hstring => .bind (.reject fun hout => ?_) fun _ _ => reject_returned _
  have hstring := reject_ok.mp hstring
  omega

theorem validateEntry_reads {u : Unit} (h : validateEntry path bs offset enforce = .ok u) :
    offset + 4 < 2 ^ 63 := by
  obtain ⟨_, hread, -⟩ := bind_ok.mp h
  exact (readUnsigned_ok hread).1.trans_lt hlen

omit hlen in
theorem validateEntry_loads (h : validateEntry path bs offset true = .ok ()) : Loads bs offset := by
  intro hload
  obtain ⟨_, hkind, h⟩ := bind_ok.mp h
  obtain ⟨-, rfl⟩ := readUnsigned_ok hkind
  simp only [hload, bind_ok, reject_ok, ne_eq, not_true_eq_false, if_false] at h
  obtain ⟨_, -, _, hstart, _, -, _, hsize, _, hstring, _, -, hloader⟩ := h
  obtain ⟨-, rfl⟩ := readUnsigned_ok hstart
  obtain ⟨-, rfl⟩ := readUnsigned_ok hsize
  exact ⟨by omega, by simpa using hloader⟩

theorem validateInterpreter_returned (h : 0 < ofLeBytes (window bs 56 2) →
      56 ≤ ofLeBytes (window bs 54 2) → ofLeBytes (window bs 32 8) + 4 < 2 ^ 64) :
    Errs Returned (validateInterpreter path bs enforce) := by
  refine .bind (readUnsigned_returned (by decide)) fun start hstart =>
    .bind (readUnsigned_returned (by decide)) fun size hsize =>
      .bind (readUnsigned_returned (by decide)) fun count hcount =>
        .bind (reject_returned _) fun _ hentries => ?_
  obtain ⟨-, rfl⟩ := readUnsigned_ok hstart
  obtain ⟨-, rfl⟩ := readUnsigned_ok hsize
  obtain ⟨-, rfl⟩ := readUnsigned_ok hcount
  rcases Nat.eq_zero_or_pos (ofLeBytes (window bs 56 2)) with hzero | hpos
  · rw [hzero]
    exact .ok _
  have h := h hpos (by have := reject_ok.mp hentries; omega)
  have hsize := field_lt bs 54 2
  generalize ofLeBytes (window bs 32 8) = start, ofLeBytes (window bs 54 2) = size at *
  rw [range_eq_range']
  refine .forM_range' (P := fun i => start + min (i * size) (2 ^ 64 - 1) + 4 < 2 ^ 64 ∨
    2 ^ 64 ≤ start + min (i * size) (2 ^ 64 - 1)) (fun i hi => ?_) (fun i hok => ?_) (by omega) _
  · refine .bind (reject_returned _) fun _ hbelow => ?_
    exact validateEntry_returned hlen (hi.resolve_right (reject_ok.mp hbelow))
  · have hread := validateEntry_reads hlen (reject_bind_ok_iff.mp hok).2
    have hnext : (i + 1) * size = i * size + size := Nat.succ_mul i size
    omega

end

theorem byteAt_returned (h : offset < bs.length) : Errs Returned (byteAt bs offset) := by
  rw [byteAt, getElem?_eq_getElem h]
  exact .ok _

theorem platformOf_returned (path : String) (machine : ℕ) :
    Errs Returned (platformOf path machine) := by
  unfold platformOf
  split
  · exact .ok _
  · exact .ok _
  · exact .error ⟨_, rfl⟩

/-- A file that passes the checks of its header, with a table of entries. -/
structure HasTable (bs : List UInt8) : Prop where
  long : 64 ≤ bs.length
  magic : [0x7f, 0x45, 0x4c, 0x46] <+: bs
  is64Bit : bs[4]? = some 2
  littleEndian : bs[5]? = some 1
  elfType : ofLeBytes (window bs 16 2) = 2 ∨ ofLeBytes (window bs 16 2) = 3
  machine : ofLeBytes (window bs 18 2) = 62 ∨ ofLeBytes (window bs 18 2) = 183
  entries : 0 < ofLeBytes (window bs 56 2)
  entrySize : 56 ≤ ofLeBytes (window bs 54 2)

theorem readUnsigned_of (h : offset + width ≤ bs.length) (hlen : bs.length < 2 ^ 63) :
    readUnsigned bs offset width = .ok (ofLeBytes (window bs offset width)) := by
  rw [readUnsigned, reject_of_not _ (by omega), reject_of_not _ (by omega)]
  rfl

theorem platformOf_ok {machine : ℕ} {platform : String}
    (h : platformOf path machine = .ok platform) : machine = 62 ∨ machine = 183 := by
  unfold platformOf at h
  split at h
  · exact .inl rfl
  · exact .inr rfl
  · cases h

/-- The address of the first entry is added to without a check. -/
theorem HasTable.overflows (h : HasTable bs) (hlen : bs.length < 2 ^ 63)
    (hoffset : 2 ^ 64 ≤ ofLeBytes (window bs 32 8) + 4) :
    validateLinuxExecutable path enforce ⟨bs, hlen⟩ = .error .overflow := by
  obtain ⟨hlong, hmagic, hclass, hdata, htype, hmachine, hentries, hsize⟩ := h
  have hstart := field_lt bs 32 8
  have hentry : validateEntry path bs (ofLeBytes (window bs 32 8)) enforce = .error .overflow := by
    rw [validateEntry, readU32, readUnsigned, reject_of _ hoffset]
    rfl
  have htable : validateInterpreter path bs enforce = .error .overflow := by
    obtain ⟨count, hcount⟩ := Nat.exists_eq_add_of_le' hentries
    rw [validateInterpreter, readU64, readUnsigned_of (by omega) hlen, ok_bind, readU16,
      readUnsigned_of (by omega) hlen, ok_bind, readU16, readUnsigned_of (by omega) hlen,
      ok_bind, reject_of_not _ (by omega), ok_bind, hcount, range_succ_eq_map, List.forM]
    simp only [Nat.zero_mul, Nat.zero_min, Nat.add_zero]
    rw [reject_of_not _ (by omega), ok_bind, hentry]
    rfl
  obtain ⟨platform, hplatform⟩ :
      ∃ platform, platformOf path (ofLeBytes (window bs 18 2)) = .ok platform := by
    rcases hmachine with hmachine | hmachine <;> exact ⟨_, by rw [hmachine]; rfl⟩
  rw [validateLinuxExecutable, reject_of_not _ (by simpa using ⟨hlong, hmagic⟩), ok_bind, byteAt,
    hclass, byteAt, hdata]
  simp only [require, ok_bind]
  rw [reject_of_not _ (by simp), ok_bind, readU16, readUnsigned_of (by omega) hlen,
    ok_bind, reject_of_not _ (by omega), ok_bind, readU16,
    readUnsigned_of (by omega) hlen, ok_bind, hplatform, ok_bind, htable]
  rfl

/-- Every inspection returns, unless the table of a valid header is declared at the last four
addresses. One that succeeds for the default base image has seen an `ld-linux` loader in every
interpreter entry. -/
theorem executable_inspected (path : String) (enforce : Bool) (bs : ByteVec) :
    (Errs Returned (validateLinuxExecutable path enforce bs) ↔
      (HasTable bs → ofLeBytes (window bs 32 8) + 4 < 2 ^ 64)) ∧
    ∀ platform, validateLinuxExecutable path true bs = .ok platform →
      ∀ index < ofLeBytes (window bs 56 2),
        Loads bs (ofLeBytes (window bs 32 8) + index * ofLeBytes (window bs 54 2)) := by
  obtain ⟨bs, hlen⟩ := bs
  refine ⟨⟨fun h htable => ?_, fun h => ?_⟩, fun platform hok index hindex => ?_⟩
  · by_contra hoffset
    obtain ⟨_, htext⟩ := h _ (htable.overflows hlen (not_lt.mp hoffset))
    cases htext
  · refine .bind (reject_returned _) fun _ hheader => ?_
    obtain ⟨hlong, hmagic⟩ := not_or.mp (reject_ok.mp hheader)
    rw [not_lt] at hlong
    refine .bind (byteAt_returned (by omega)) fun _ hclass =>
      .bind (byteAt_returned (by omega)) fun _ hdata => .bind (reject_returned _) fun _ hkind =>
        .bind (readUnsigned_returned (by decide)) fun _ htype =>
          .bind (reject_returned _) fun _ htypes =>
            .bind (readUnsigned_returned (by decide)) fun _ hmachine =>
              .bind (platformOf_returned _ _) fun _ hplatform =>
                .bind (validateInterpreter_returned hlen fun hentries hsize => h ?_)
                  fun _ _ => .ok _
    obtain ⟨-, rfl⟩ := readUnsigned_ok htype
    obtain ⟨-, rfl⟩ := readUnsigned_ok hmachine
    obtain ⟨rfl, rfl⟩ := not_or.mp (reject_ok.mp hkind) |>.imp not_not.mp not_not.mp
    exact ⟨hlong, not_not.mp hmagic, require_ok.mp hclass, require_ok.mp hdata,
      by have := reject_ok.mp htypes; omega, platformOf_ok hplatform, hentries, hsize⟩
  · simp only [validateLinuxExecutable, validateInterpreter, bind_ok] at hok
    obtain ⟨_, -, _, -, _, -, _, -, _, -, _, -, _, -, _, -, _,
      ⟨start, hstart, size, hsize, count, hcount, _, -, hloop⟩, -⟩ := hok
    obtain ⟨-, rfl⟩ := readUnsigned_ok hstart
    obtain ⟨-, rfl⟩ := readUnsigned_ok hsize
    obtain ⟨-, rfl⟩ := readUnsigned_ok hcount
    obtain ⟨-, hentry⟩ := reject_bind_ok_iff.mp (forM_ok_iff.mp hloop index (mem_range.mpr hindex))
    have hsmall := Nat.mul_lt_mul'' (hindex.trans (field_lt bs 56 2)) (field_lt bs 54 2)
    rw [min_eq_left (hsmall.le.trans (by decide))] at hentry
    exact validateEntry_loads hentry

/-- A header whose program table has one entry and begins at the given address. -/
def headerOf (programOffset : ℕ) : List UInt8 :=
  [0x7f, 0x45, 0x4c, 0x46, 2, 1] ++ replicate 10 0 ++ [2, 0, 62, 0] ++ replicate 12 0 ++
    leBytes 8 programOffset ++ replicate 14 0 ++ [56, 0, 1, 0] ++ replicate 6 0

theorem header_inspected :
    Errs Returned (validateLinuxExecutable "app" true ⟨headerOf 64, by decide⟩) :=
  (executable_inspected "app" true ⟨headerOf 64, by decide⟩).1.mpr fun _ => by decide

theorem table_address_overflows :
    validateLinuxExecutable "app" true ⟨headerOf (2 ^ 64 - 1), by decide⟩ = .error .overflow := by
  rfl

end Tysel.Build
