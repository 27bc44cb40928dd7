import Mathlib.Data.List.Infix
import Mathlib.Data.Nat.Bitwise
import Tysel.Algorithm.Runtime.Plane

/-! The comment gives back the names that do not end it. Generated ids are distinct as long as the
bits of the counter above the sixteen free ones do not meet those of the clock. -/

namespace Tysel.Runtime

open List Tysel.Text Nat

/-- A name that is read back from the comment as it is. -/
structure Recoverable (name : List Char) : Prop where
  trimmed : trim name = name
  nonempty : name ≠ []
  plain : ¬ ['*', '/'] <:+: name

theorem splitComment_append {name : List Char} (h : ¬ ['*', '/'] <:+: name) (rest : List Char) :
    splitComment (name ++ '*' :: '/' :: rest) = some (name, rest) := by
  induction name with
  | nil => rfl
  | cons c cs ih =>
    have htail := ih fun hin => h (hin.trans (suffix_cons c cs).isInfix)
    rw [cons_append, splitComment, htail]
    · rfl
    rintro tail rfl hcs
    cases cs with
    | nil => simp at hcs
    | cons d ds =>
      obtain ⟨rfl, -⟩ := cons.inj hcs
      exact h ⟨[], ds, rfl⟩

theorem splitComment_first (front rest : List Char) : ∃ name body,
    splitComment (front ++ '*' :: '/' :: rest) = some (name, body) ∧
      name.length ≤ front.length := by
  induction front with
  | nil => exact ⟨[], rest, rfl, le_rfl⟩
  | cons c cs ih =>
    rw [cons_append]
    unfold splitComment
    split
    · exact ⟨[], _, rfl, zero_le _⟩
    · rename_i heq
      obtain ⟨rfl, rfl⟩ := cons.inj heq
      obtain ⟨name, body, hsplit, hle⟩ := ih
      exact ⟨c :: name, body, by rw [hsplit]; rfl, succ_le_succ hle⟩
    · contradiction

theorem length_trim_le (cs : List Char) : (trim cs).length ≤ cs.length := by
  rw [trim, trimEndMatches, length_reverse]
  refine (dropWhile_sublist _).length_le.trans ?_
  rw [length_reverse]
  exact (dropWhile_sublist _).length_le

theorem splitDurableExport_encode {name source found body : List Char}
    (h : splitComment (name ++ '*' :: '/' :: '\n' :: source) = some (found, body)) :
    splitDurableExport (encodeDurableExport name source) =
      if trim found = [] then (encodeDurableExport name source, none)
      else (body.dropWhile isLineBreak, some (trim found)) := by
  simp [splitDurableExport, encodeDurableExport, stripPrefix, isPrefixOf_iff_prefix, h]

/-- The name and the source come back exactly for the names that the comment can carry. -/
theorem export_recovered (name source : List Char) :
    splitDurableExport (encodeDurableExport name source) =
      (source.dropWhile isLineBreak, some name) ↔ Recoverable name := by
  constructor
  · intro h
    have hplain : ¬ ['*', '/'] <:+: name := by
      rintro ⟨front, rest, rfl⟩
      -- The comment ends inside the name, and trimming does not make it longer again.
      obtain ⟨found, body, hsplit, hle⟩ :=
        splitComment_first front (rest ++ '*' :: '/' :: '\n' :: source)
      have htrim := length_trim_le found
      rw [splitDurableExport_encode (by simpa using hsplit)] at h
      split at h
      · simp at h
      · have hname := congrArg length (Option.some.inj (Prod.mk.inj h).2)
        simp only [length_append, length_cons] at hname
        omega
    rw [splitDurableExport_encode (splitComment_append hplain _)] at h
    split at h
    · simp at h
    · rename_i hne
      have hname := Option.some.inj (Prod.mk.inj h).2
      exact ⟨hname, hname ▸ hne, hplain⟩
  · intro h
    rw [splitDurableExport_encode (splitComment_append h.plain _), h.trimmed, if_neg h.nonempty]
    rfl

theorem named_export_recovered :
    splitDurableExport (encodeDurableExport "run".toList "\r\nbody".toList) =
      ("body".toList, some "run".toList) :=
  (export_recovered _ _).mpr ⟨by decide, by decide, by decide⟩

theorem comment_end_in_name :
    decodeDurableExports (fun _ => .ok ["a*/b"]) "[\"a*/b\"]" = .ok ["a*/b"] ∧
      splitDurableExport (encodeDurableExport "a*/b".toList "body".toList) =
        ("b*/\nbody".toList, some "a".toList) := by
  decide

theorem or_le_add (a b : ℕ) : a ||| b ≤ a + b := by
  induction a using Nat.strongRecOn generalizing b with
  | ind a ih =>
    rcases Nat.eq_zero_or_pos a with rfl | _
    · simp
    have hhalf := ih (a / 2) (by omega) (b / 2)
    have hdiv : (a ||| b) / 2 = a / 2 ||| b / 2 := or_div_two_pow (n := 1)
    have hmod : (a ||| b) % 2 = a % 2 ||| b % 2 := or_mod_two_pow (n := 1)
    have hbit : a % 2 ||| b % 2 ≤ a % 2 + b % 2 := by
      rcases mod_two_eq_zero_or_one a with ha | ha <;>
        rcases mod_two_eq_zero_or_one b with hb | hb <;> simp [ha, hb]
    omega

theorem nextTaskId_val (pid : UInt32) {nanos : ℕ} (h : nanos < 2 ^ 80) (n : UInt64) :
    (nextTaskId pid nanos n).val = pid.toNat <<< 96 + (nanos <<< 16 ||| n.toNat) := by
  have hlow : nanos <<< 16 ||| n.toNat < 2 ^ 96 :=
    or_lt_two_pow (by omega) (n.toNat_lt.trans (by decide))
  have hpid := pid.toNat_lt
  rw [Nat.shiftLeft_add_eq_or_of_lt hlow, Nat.or_comm]
  refine Nat.mod_eq_of_lt ?_
  rw [Nat.or_comm, ← Nat.shiftLeft_add_eq_or_of_lt hlow]
  omega

/-- Calls whose values of the counter agree in their low sixteen bits are so far apart that the
clock has passed the other bits. -/
def Spaced (readings : List ℕ) : Prop :=
  (readings.zipIdx 1).Pairwise fun a b => a.2 % 2 ^ 16 = b.2 % 2 ^ 16 → a.1 + a.2 / 2 ^ 16 < b.1

/-- Within one process no two calls that are so spaced get the same id. -/
theorem task_ids_distinct (pid : UInt32) (readings : List ℕ) (hrange : ∀ t ∈ readings, t < 2 ^ 80)
    (hspaced : Spaced readings) : (taskIds pid readings).Nodup := by
  refine pairwise_map.mpr (hspaced.imp_of_mem fun {a b} ha hb hapart heq => ?_)
  have hbits : a.1 <<< 16 ||| a.2 % 2 ^ 64 = b.1 <<< 16 ||| b.2 % 2 ^ 64 := by
    have hval := congrArg Fin.val heq
    rw [nextTaskId_val pid (hrange _ (fst_mem_of_mem_zipIdx ha)),
      nextTaskId_val pid (hrange _ (fst_mem_of_mem_zipIdx hb))] at hval
    exact add_left_cancel hval
  have hlow := congrArg (· % 2 ^ 16) hbits
  have hhigh := congrArg (· / 2 ^ 16) hbits
  simp only [Nat.or_mod_two_pow, Nat.or_div_two_pow, Nat.shiftLeft_eq, Nat.mul_mod_left,
    Nat.zero_or, Nat.mul_div_cancel _ (show 0 < 2 ^ 16 by decide)] at hlow hhigh
  have hle := or_le_add a.1 (a.2 % 2 ^ 64 / 2 ^ 16)
  have hge : b.1 ≤ b.1 ||| b.2 % 2 ^ 64 / 2 ^ 16 := Nat.left_le_or
  omega

theorem two_task_ids_distinct : (taskIds 7 [5, 5]).Nodup :=
  task_ids_distinct 7 [5, 5] (by simp) (by simp [Spaced])

/-- A call and the one `2 ^ 16` calls later read the same time. -/
theorem task_id_repeated : ¬ (taskIds 7 (replicate (2 ^ 16 + 1) 1)).Nodup := by
  have hget {i : ℕ} (hi : i < 2 ^ 16 + 1) :
      (taskIds 7 (replicate (2 ^ 16 + 1) 1))[i]? = some (nextTaskId 7 1 (.ofNat (1 + i))) := by
    simp only [taskIds, getElem?_map, getElem?_zipIdx, getElem?_replicate, if_pos hi,
      Option.map_some]
  intro hnodup
  refine nodup_iff_getElem?_ne_getElem?.mp hnodup 0 (2 ^ 16) (by decide) ?_ ?_
  · simp only [taskIds, length_map, length_zipIdx, length_replicate]
    decide
  · rw [hget (by decide), hget (by decide)]
    decide

end Tysel.Runtime
