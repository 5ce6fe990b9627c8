/-
**The array replies the set handlers write by hand.**

`SDIFF`, `SINTER`, `SMEMBERS`, `SPOP`, `SRANDMEMBER` and `SUNION` write their arrays with one
loop: `"*%d"`, then `"\r\n$%d\r\n%s"` for each element, and `"\r\n"` after the element of
index `len-1`.  On a nonempty array this is the RESP encoding of an array of bulk strings.  On
an empty array the loop adds nothing, and the reply is `*0` without its CRLF, which is not a
RESP value at all.

Main results:

* `EchoVault.renderMembers_eq_encode` — on a nonempty list, the loop writes the RESP array of
  bulk strings;
* `EchoVault.renderMembers_nil` — on the empty list it writes `*0`, which is not one complete
  RESP value;
* `EchoVault.sinter_disjoint_reply_incomplete` — `SINTER a b` on disjoint sets replies `*0`.
-/

import EchoVault.Handler.Locks
import EchoVault.Resp

set_option relaxedAutoImplicit false
set_option autoImplicit false

namespace EchoVault

/-! ### The array loop -/

/-- What the array loop writes for one element. -/
def memberLine (e : Bytes) : Bytes := crlf ++ ascii "$" ++ decimal e.length ++ crlf ++ e

/-- The loop from the element of index `k` on, for an array of `n` elements: each element's
line, and the CRLF after the last one. -/
theorem renderMembers_loop (n : ℕ) (xs : List Bytes) (k : ℕ) (acc : Bytes) (hk : k + xs.length = n) :
    (xs.enumFrom k).foldl (fun res ie =>
        let res := res ++ crlf ++ ascii "$" ++ decimal ie.2.length ++ crlf ++ ie.2
        if ie.1 = n - 1 then res ++ crlf else res) acc =
      acc ++ (xs.map memberLine).flatten ++ (if xs = [] then [] else crlf) := by
  induction xs generalizing k acc with
  | nil => simp
  | cons x xs ih =>
      rw [List.enumFrom_cons, List.foldl_cons, ih (k + 1) _ (by simp at hk; omega)]
      cases xs with
      | nil =>
          have hlast : k = n - 1 := by simp at hk; omega
          simp [memberLine, hlast]
      | cons y ys =>
          have hnot : k ≠ n - 1 := by simp at hk; omega
          simp [memberLine, hnot]

theorem flatten_append_crlf (xs : List Bytes) :
    (xs.map memberLine).flatten ++ crlf =
      crlf ++ (xs.map fun e => (Resp.bulk e).encode).flatten := by
  induction xs with
  | nil => rfl
  | cons x xs ih =>
      simp only [List.map_cons, List.flatten_cons, List.append_assoc, ih]
      simp [memberLine, Resp.encode]

/-- **On a nonempty list, the array loop writes the RESP array of bulk strings.** -/
theorem renderMembers_eq_encode {elems : List Bytes} (h : elems ≠ []) :
    renderMembers elems = (Resp.array (elems.map .bulk)).encode := by
  rw [renderMembers, List.enum, renderMembers_loop elems.length elems 0 _ (by simp), if_neg h,
    List.append_assoc, flatten_append_crlf]
  simp [Resp.encode, Resp.encodeList_eq, Function.comp_def]

/-- One member is written as a one-element RESP array. -/
theorem renderMembers_single :
    [ascii "x"] ≠ [] ∧ renderMembers [ascii "x"] = (Resp.array [.bulk (ascii "x")]).encode :=
  ⟨List.cons_ne_nil _ _, renderMembers_eq_encode (List.cons_ne_nil _ _)⟩

/-- **On the empty list, the array loop writes `*0`, which is not a RESP value.** -/
theorem renderMembers_nil : renderMembers [] = ascii "*0" ∧ ¬ Resp.Complete (renderMembers []) :=
  ⟨rfl, Resp.not_complete_of_not_crlf (by decide)⟩

/-! ### Disjoint sets -/

/-- `SINTER a b`. -/
def sinterAB : Prog Reply := handleSINTER allReadKeys [ascii "SINTER", ascii "a", ascii "b"]

/-- **`SINTER` of disjoint sets replies `*0` without its CRLF.**  On the sets `a = {x}` and
`b = {y}`, `SINTER a b` returns the reply `*0`, which the RESP framing grammar does not
accept. -/
theorem sinter_disjoint_reply_incomplete :
    (sinterAB.run twoSets).result = .ok (.ok (ascii "*0")) ∧ ¬ Resp.Complete (ascii "*0") :=
  ⟨by decide, Resp.not_complete_of_not_crlf (by decide)⟩

end EchoVault
