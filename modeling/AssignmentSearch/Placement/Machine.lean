import AssignmentSearch.Mapping.Figure
import AssignmentSearch.Solution.Cost

/-!
# Machines

Virtual machines are the tasks and hosts the resources of a placement. Both count processing
elements. Scenarios give integers for all their parts.
-/

namespace AssignmentSearch

/-- A virtual machine and the processing elements it asks for. -/
structure Vm (κ : Type) where
  id : κ
  peCount : κ
  deriving DecidableEq, BEq, ReflBEq, LawfulBEq, Repr

/-- A host and the processing elements it offers. -/
structure Host (κ : Type) where
  id : κ
  peCount : κ
  deriving DecidableEq, BEq, ReflBEq, LawfulBEq, Repr

class Count (α κ : Type) where
  quantity : κ → Except Fault α

variable {κ : Type}

instance instToStringVm [ToString κ] : ToString (Vm κ) := ⟨fun vm => "Vm" ++ toString vm.id⟩

instance instToStringHost [ToString κ] : ToString (Host κ) :=
  ⟨fun host => "Host" ++ toString host.id⟩

instance instKeyVm [Key κ] : Key (Vm κ) := ⟨fun vm => Key.permitAll [vm.id, vm.peCount]⟩

instance instKeyHost [Key κ] : Key (Host κ) := ⟨fun host => Key.permitAll [host.id, host.peCount]⟩

@[simp] theorem permit_vm (vm : Vm Int) : Key.permit vm = .ok () := rfl

@[simp] theorem permit_host (host : Host Int) : Key.permit host = .ok () := rfl

instance instCountInt {α : Type} [Quantity α] : Count α Int := ⟨quantityOfInt⟩

instance instCountFigure : Count Float Figure := ⟨Figure.size⟩

class Written (κ : Type) where
  /-- Whether a value is too long to be written. -/
  isLong : κ → Bool

instance instWrittenInt : Written Int := ⟨fun n => (Datum.int n).isLong⟩

instance instWrittenFigure : Written Figure := ⟨fun a => a.value.isLong⟩

namespace Placement

variable {α : Type} [Quantity α] [Count α κ]

def demand (vm : Vm κ) : Except Fault α := Count.quantity vm.peCount

def capacity (host : Host κ) : Except Fault α := Count.quantity host.peCount

/-- Charges each host in use the elements that no machine on it asks for. -/
def costModel [BEq κ] [Key κ] : CostModel α (Vm κ) (Host κ) :=
  .spare "VmToHostMappingSolution" demand capacity

end Placement

end AssignmentSearch
