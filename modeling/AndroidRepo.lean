import AndroidRepo.Transition
import AndroidRepo.StrongPointer.Ownership
import AndroidRepo.Binder.Acceptance
import AndroidRepo.Binder.RegistrationProgress
import AndroidRepo.ThreadLocal.Counting
import AndroidRepo.MemoApp.SingletonProgress
import AndroidRepo.MemoApp.StoreOrder
import AndroidRepo.MemoApp.NavigationSafety
import AndroidRepo.Binder.LedClient
import AndroidRepo.Binder.ServiceSurvival
import AndroidRepo.Hvac.Celsius
import AndroidRepo.Overlay.Model
import AndroidRepo.Overlay.Permission
import AndroidRepo.StoreLog
import AndroidRepo.StrongPointer.Assignment
import AndroidRepo.StrongPointer.ValueCopy
import AndroidRepo.Surface.AnimationRange
import AndroidRepo.Surface.FillRange
import AndroidRepo.ThreadLocal.Lifetime
import AndroidRepo.CalcService
import AndroidRepo.Hvac.Reading
import AndroidRepo.Ashmem.Model
import AndroidRepo.Ashmem.Publication
import AndroidRepo.Binder.LedInput
import AndroidRepo.Binder.Generations
import AndroidRepo.LedAuth
import AndroidRepo.LiveValue
import AndroidRepo.MemoApp.App
import AndroidRepo.MemoApp.AppRefinement
import AndroidRepo.MemoApp.Listing
import AndroidRepo.MemoApp.Settling
import AndroidRepo.Overlay.Windows
import AndroidRepo.MemoApp.ListingOrder
import AndroidRepo.StrongPointer.Accounting
import AndroidRepo.StrongPointer.Release
