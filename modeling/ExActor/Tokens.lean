/-
**One-time tokens among the messages in flight.**

Some of the messages in flight carry a token and the others are plain.  A token is spent when its
message is delivered, and it is gone when its message is lost.  No token is carried twice, and none
that was spent is carried again: so nothing that depends on a token happens twice.

Whether a message carries a token need not be seen in the message, so the tokens are a matter of how
the messages in flight can be divided.

Main definitions:

* `SpentOnce` — the messages in flight can be divided so that no token occurs twice.

Main results:

* `SpentOnce.deliver` — a message that is delivered carries a token, which is now spent, or is
  plain;
* `SpentOnce.send`, `SpentOnce.sendPlain` — messages that carry a new token, or none, may be sent;
* `SpentOnce.nodup` — **no token was spent twice**.
-/

import Mathlib.Data.List.Nodup
import Mathlib.Data.List.Perm.Basic

set_option relaxedAutoImplicit false
set_option autoImplicit false

variable {σ κ : Type*}

/-- The messages in flight are some that carry a token each and some that are plain; and the tokens
that are carried and those that were spent are all different. -/
def SpentOnce (carries : σ → κ → Prop) (plain : σ → Prop) (spent : List κ) (msgs : List σ) : Prop :=
  ∃ (tokens : List (σ × κ)) (rest : List σ), msgs.Perm (tokens.map Prod.fst ++ rest) ∧
    (∀ t ∈ tokens, carries t.1 t.2) ∧ (∀ m ∈ rest, plain m) ∧ (tokens.map Prod.snd ++ spent).Nodup

namespace SpentOnce

variable {carries carries' : σ → κ → Prop} {plain plain' : σ → Prop} {spent : List κ}
  {msgs : List σ} {m : σ} {k : κ}

theorem nil : SpentOnce carries plain [] [] := ⟨[], [], by simp, by simp, by simp, by simp⟩

theorem mono (h : SpentOnce carries plain spent msgs)
    (hcarries : ∀ m k, carries m k → carries' m k) (hplain : ∀ m, plain m → plain' m) :
    SpentOnce carries' plain' spent msgs := by
  obtain ⟨tokens, rest, hperm, htokens, hrest, hnodup⟩ := h
  exact ⟨tokens, rest, hperm, fun t ht => hcarries _ _ (htokens t ht),
    fun m hm => hplain m (hrest m hm), hnodup⟩

/-- **No token was spent twice.** -/
theorem nodup (h : SpentOnce carries plain spent msgs) : spent.Nodup := by
  obtain ⟨tokens, rest, -, -, -, hnodup⟩ := h
  exact hnodup.sublist (List.sublist_append_right ..)

/-- A token that is not used need not be spent. -/
theorem unspent {more : List κ} (h : SpentOnce carries plain (spent ++ more) msgs) :
    SpentOnce carries plain spent msgs := by
  obtain ⟨tokens, rest, hperm, htokens, hrest, hnodup⟩ := h
  refine ⟨tokens, rest, hperm, htokens, hrest, hnodup.sublist ?_⟩
  exact (List.sublist_append_left spent more).append_left _

/-- A message that is delivered carries a token, which is now spent, or it is plain. -/
theorem deliver (h : SpentOnce carries plain spent msgs) {j : ℕ} (hm : msgs[j]? = some m) :
    (∃ k, carries m k ∧ SpentOnce carries plain (spent ++ [k]) (msgs.eraseIdx j)) ∨
      plain m ∧ SpentOnce carries plain spent (msgs.eraseIdx j) := by
  obtain ⟨tokens, rest, hperm, htokens, hrest, hnodup⟩ := h
  obtain ⟨hj, rfl⟩ := List.getElem?_eq_some_iff.1 hm
  have hpick := (List.getElem_cons_eraseIdx_perm hj).trans hperm
  rcases List.mem_append.1 (hperm.mem_iff.1 (List.getElem_mem hj)) with hmem | hmem
  · -- it is one of those that carry a token
    obtain ⟨⟨m, k⟩, ht, hfst⟩ := List.mem_map.1 hmem
    obtain ⟨tokens₁, tokens₂, rfl⟩ := List.append_of_mem ht
    refine Or.inl ⟨k, hfst ▸ htokens _ ht, tokens₁ ++ tokens₂, rest, ?_, fun t hin => ?_, hrest, ?_⟩
    · rw [← hfst] at hpick
      simp only [List.map_append, List.map_cons, List.append_assoc, List.cons_append] at hpick ⊢
      exact (hpick.trans List.perm_middle).cons_inv
    · refine htokens t ?_
      rcases List.mem_append.1 hin with hin | hin
      · exact List.mem_append_left _ hin
      · exact List.mem_append_right _ (List.mem_cons_of_mem _ hin)
    · -- the token goes from the middle to the end
      refine List.Perm.nodup ?_ hnodup
      simp only [List.map_append, List.map_cons, List.append_assoc, List.cons_append]
      refine List.perm_middle.trans ?_
      rw [← List.append_assoc, ← List.append_assoc, ← List.append_assoc]
      exact (List.perm_append_singleton ..).symm
  · -- it is plain, and no token is touched
    obtain ⟨rest₁, rest₂, hsplit⟩ := List.append_of_mem hmem
    refine Or.inr ⟨hrest _ hmem, tokens, rest₁ ++ rest₂, ?_, htokens, fun m hin => ?_, hnodup⟩
    · rw [hsplit, ← List.append_assoc] at hpick
      rw [← List.append_assoc]
      exact (hpick.trans List.perm_middle).cons_inv
    · refine hrest m ?_
      rw [hsplit]
      rcases List.mem_append.1 hin with hin | hin
      · exact List.mem_append_left _ hin
      · exact List.mem_append_right _ (List.mem_cons_of_mem _ hin)

/-- A message may be lost. -/
theorem lose (h : SpentOnce carries plain spent msgs) (j : ℕ) :
    SpentOnce carries plain spent (msgs.eraseIdx j) := by
  cases hm : msgs[j]? with
  | none =>
      rw [List.eraseIdx_of_length_le (List.getElem?_eq_none_iff.1 hm)]
      exact h
  | some m =>
      rcases h.deliver hm with ⟨k, -, hspent⟩ | ⟨-, hplain⟩
      · exact hspent.unspent
      · exact hplain

/-- Plain messages may be sent. -/
theorem sendPlain (h : SpentOnce carries plain spent msgs) {sent : List σ}
    (hsent : ∀ m ∈ sent, plain m) : SpentOnce carries plain spent (msgs ++ sent) := by
  obtain ⟨tokens, rest, hperm, htokens, hrest, hnodup⟩ := h
  refine ⟨tokens, rest ++ sent, ?_, htokens, fun m hm => ?_, hnodup⟩
  · rw [← List.append_assoc]
    exact hperm.append_right sent
  · rcases List.mem_append.1 hm with hm | hm
    · exact hrest m hm
    · exact hsent m hm

/-- A message may be sent that carries a token that was never carried before. -/
theorem send (h : SpentOnce carries plain spent msgs) (hcarries : ∀ m k, carries m k → carries' m k)
    (hm : carries' m k) (hnew : ∀ m, ¬ carries m k) (hspent : k ∉ spent) :
    SpentOnce carries' plain spent (msgs ++ [m]) := by
  obtain ⟨tokens, rest, hperm, htokens, hrest, hnodup⟩ := h
  refine ⟨(m, k) :: tokens, rest, ?_, fun t ht => ?_, hrest,
    List.nodup_cons.2 ⟨fun hmem => ?_, hnodup⟩⟩
  · exact (List.perm_append_singleton ..).trans (hperm.cons m)
  · rcases List.mem_cons.1 ht with rfl | ht
    · exact hm
    · exact hcarries _ _ (htokens t ht)
  · rcases List.mem_append.1 hmem with hmem | hmem
    · obtain ⟨t, ht, rfl⟩ := List.mem_map.1 hmem
      exact hnew t.1 (htokens t ht)
    · exact hspent hmem

end SpentOnce
