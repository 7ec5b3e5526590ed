import Mathlib.Data.Int.Notation

/-! `ErrnoUtils.h`: the errors of the I/O services and the error numbers of Linux that they come
from. -/
namespace Ichor

inductive IOError where
  | failed | serviceQuitting
  | fileDoesNotExist | noPermission | isDirShouldBeFile | isFileShouldBeDir | interruptedBySignal
  | basenameContainsInvalidCharacters | tooManySymbolicLinks | perProcessLimitReached
  | filepathTooLong | serviceStopped | fileSizeTooBig | systemBug | readOnlyFs | userQuotaReached
  | noSpaceLeft | ioError | badFileDescriptor
  | notConnected | notASocket | messageSizeTooBig | connectionReset | destinationAddressRequired
  | alreadyConnected | networkInterfaceOutputQueueFull | noMemoryAvailable | notSupported
  | kernelTooOld
  deriving DecidableEq, Repr

def mapErrnoToError (err : ℤ) : IOError :=
  if err = 13 ∨ err = 14 ∨ err = 1 then .noPermission
  else if err = 4 then .interruptedBySignal
  else if err = 22 then .basenameContainsInvalidCharacters
  else if err = 40 then .tooManySymbolicLinks
  else if err = 24 then .perProcessLimitReached
  else if err = 36 then .filepathTooLong
  else if err = 2 then .fileDoesNotExist
  else if err = 21 then .isDirShouldBeFile
  else if err = 20 then .isFileShouldBeDir
  else if err = 30 then .readOnlyFs
  else if err = 122 then .userQuotaReached
  else if err = 28 then .noSpaceLeft
  else if err = 9 then .badFileDescriptor
  else if err = 5 then .ioError
  else if err = 107 then .notConnected
  else if err = 88 then .notASocket
  else if err = 90 then .messageSizeTooBig
  else if err = 104 then .connectionReset
  else if err = 89 then .destinationAddressRequired
  else if err = 106 then .alreadyConnected
  else if err = 105 then .networkInterfaceOutputQueueFull
  else if err = 12 then .noMemoryAvailable
  else if err = 95 then .notSupported
  else .failed

end Ichor
